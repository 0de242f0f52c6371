import AccelSimLite.Simulator.FileOrder
import AccelSimLite.Simulator.Termination

/-!
# Comparing configurations

Two runs of one workload, cycle by cycle. A run under the wider configuration
stays ahead: whatever has come to a stage in the other run has come to it there.
For a greedy scheduler this needs a condition, since an instruction that becomes
ready early can take the place of a more urgent one. It can do so only by
overtaking it, and where there is not room for both.

## Main definitions

- `SimulatorConfig.AtMost` — a configuration is componentwise at most another
- `KeepsOrder` — two runs bring no two of some instructions to a stage in opposite orders
- `AnomalyFree` — instructions that compete for too few places keep their order
- `Ahead` — one state of a run is at least as far as one of another
-/

namespace AccelSim

/-- A configuration has at most the widths, capacities and units of another. -/
structure SimulatorConfig.AtMost (c₁ c₂ : SimulatorConfig) : Prop where
  fetchWidth : c₁.fetchWidth ≤ c₂.fetchWidth
  decodeWidth : c₁.decodeWidth ≤ c₂.decodeWidth
  dispatchWidth : c₁.dispatchWidth ≤ c₂.dispatchWidth
  issueWidth : c₁.issueWidth ≤ c₂.issueWidth
  computeUnits : c₁.computeUnits ≤ c₂.computeUnits
  memoryPorts : c₁.memoryPorts ≤ c₂.memoryPorts
  dispatchQueueCapacity : c₁.dispatchQueueCapacity ≤ c₂.dispatchQueueCapacity
  readyQueueCapacity : c₁.readyQueueCapacity ≤ c₂.readyQueueCapacity

theorem SimulatorConfig.AtMost.units {c₁ c₂ : SimulatorConfig} (h : c₁.AtMost c₂) (memory : Bool) :
    c₁.units memory ≤ c₂.units memory := by
  cases memory
  · exact h.computeUnits
  · exact h.memoryPorts

/-- The instruction at a position is of a class. -/
def OfClass (workload : List Instruction) (memory : Bool) (i : ℕ) : Prop :=
  i < workload.length ∧ isMemoryOp (programAt workload i).type = memory

/-- A position comes to a stage in an earlier cycle than another. -/
def ComesBefore (workload : List Instruction) (config : SimulatorConfig) (st : Stage)
    (i j : ℕ) : Prop :=
  ∃ k s, ReachesIn workload config k s ∧ s.Reached st i ∧ ¬s.Reached st j

/-- No two of the positions come to a stage the other way round in the second run. -/
def KeepsOrder (workload : List Instruction) (c₁ c₂ : SimulatorConfig) (st : Stage)
    (S : Finset ℕ) : Prop :=
  ∀ i ∈ S, ∀ j ∈ S, ComesBefore workload c₁ st i j → ¬ComesBefore workload c₂ st j i

/-- At the end of some cycle the positions are at hand together: dispatched, with the
    instructions they name done, and not completed. -/
def AtHand (workload : List Instruction) (config : SimulatorConfig) (S : Finset ℕ) : Prop :=
  ∃ k s, ReachesIn workload config k s ∧ ∀ i ∈ S, s.Reached .dispatch i ∧
    (∀ d, DependsOn workload i d → s.Reached .done d) ∧ ¬s.Reached .retire i

/-- How many of the positions are of a class. -/
def countOf (workload : List Instruction) (memory : Bool) (S : Finset ℕ) : ℕ :=
  (S.filter fun i => isMemoryOp (programAt workload i).type = memory).card

/-- Of instructions at hand together on the second configuration none overtakes another to
    take its place: they keep their order, or there is room for all of them in the ready
    queue, under the issue width, on the units of their class. -/
structure AnomalyFree (workload : List Instruction) (c₁ c₂ : SimulatorConfig) : Prop where
  ready : ∀ S, AtHand workload c₂ S →
    KeepsOrder workload c₁ c₂ .ready S ∨ S.card ≤ c₂.readyQueueCapacity
  width : ∀ S, AtHand workload c₂ S →
    KeepsOrder workload c₁ c₂ .execute S ∨
      min (c₂.units true) (countOf workload true S) +
        min (c₂.units false) (countOf workload false S) ≤ c₂.issueWidth
  units : ∀ memory S, AtHand workload c₂ S → (∀ i ∈ S, OfClass workload memory i) →
    KeepsOrder workload c₁ c₂ .execute S ∨ S.card ≤ c₂.units memory

theorem AtHand.subset_range {workload : List Instruction} {config : SimulatorConfig} {S : Finset ℕ}
    (h : AtHand workload config S) : S ⊆ Finset.range workload.length := by
  obtain ⟨k, s, hs, hS⟩ := h
  intro i hi
  exact Finset.mem_range.mpr ((hS i hi).1.1.trans_le (placed_of_reachesIn hs).next_le)

/-- The second state is at least as far as the first. -/
structure Ahead (s₁ s₂ : SimState) : Prop where
  fetched : s₁.nextToFetch ≤ s₂.nextToFetch
  decoded : s₁.decoded ≤ s₂.decoded
  entered : s₁.entered ≤ s₂.entered
  ready : ∀ i, s₁.Reached .ready i → s₂.Reached .ready i
  issued : ∀ i, s₁.Issued i →
    s₂.Issued i ∧ (s₂.instr i).issueCycle ≤ (s₁.instr i).issueCycle

/-! ### Counting -/

theorem length_lt_of_subset {l₁ l₂ : List ℕ} (h₁ : l₁.Nodup) (hsub : ∀ i ∈ l₁, i ∈ l₂) {a : ℕ}
    (ha₁ : a ∉ l₁) (ha₂ : a ∈ l₂) : l₁.length < l₂.length := by
  have hcons : (a :: l₁).Subperm l₂ := by
    apply (List.nodup_cons.mpr ⟨ha₁, h₁⟩).subperm
    intro i hi
    rcases List.mem_cons.mp hi with rfl | hi
    · exact ha₂
    · exact hsub i hi
  exact hcons.length_le

/-- Where a set is no larger than a bound, a list of distinct members without one of them is
    shorter. -/
theorem length_lt_of_card_insert_le {l : List ℕ} (hl : l.Nodup) {a n : ℕ} (ha : a ∉ l)
    (hcard : (insert a l.toFinset).card ≤ n) : l.length < n := by
  rw [Finset.card_insert_of_notMem (List.mem_toFinset.not.mpr ha),
    List.toFinset_card_of_nodup hl] at hcard
  exact hcard

/-! ### Why an entry is held -/

namespace Iteration

variable {workload : List Instruction} {config : SimulatorConfig} {s t s' : SimState}

/-- An entry the dispatch pass holds with its dependencies satisfied meets a full ready queue. -/
theorem ready_full_of_held (it : Iteration workload config s t s') {i : ℕ}
    (hi : i ∈ t.dispatchQ) (hnot : i ∉ dispatchMoved config t)
    (hdeps : depsSatisfied (t.instr i) t.retiredIds = true) :
    config.readyQueueCapacity ≤ (afterDispatch config t).readyQ.length := by
  have hnodup : t.dispatchQ.Nodup := it.started.nodup .dispatch
  obtain ⟨size, reason, hv, hle⟩ := Admission.exists_refusal_le (dispatchVisit_grows config t)
    hnodup ((Admission.mem_kept_iff hnodup).mpr ⟨hi, hnot⟩)
  rw [it.final_dispatchVisit] at hle
  refine le_trans ?_ hle
  by_contra hroom
  have hok := dispatchVisit_ok_iff.mpr ⟨hdeps, Nat.lt_of_not_le hroom, rfl⟩
  rw [hv] at hok
  cases hok

/-- An entry the issue pass holds meets a used-up width, or finds no unit of its class. -/
theorem issue_full_of_held (it : Iteration workload config s t s') {i : ℕ}
    (hi : i ∈ (afterDispatch config t).readyQ)
    (hnot : i ∉ issueMoved config (afterDispatch config t)) {memory : Bool}
    (hclass : OfClass workload memory i) :
    config.issueWidth ≤ (issueMoved config (afterDispatch config t)).length ∨
      config.units memory ≤ s'.inUse memory := by
  have hnodup := it.nodup_readyQ_dispatched
  obtain ⟨use, reason, hv, hle⟩ := Admission.exists_refusal_le
    (issueVisit_grows config (afterDispatch config t)) hnodup
    ((Admission.mem_kept_iff hnodup).mpr ⟨hi, hnot⟩)
  obtain ⟨hissued, hunits⟩ := IssueUse.le_iff.mp hle
  have hissued : use.issued ≤ (issueMoved config (afterDispatch config t)).length :=
    issueFinal_issued config _ ▸ hissued
  have hunits : use.inUse memory ≤ s'.inUse memory := it.inUse_finish memory ▸ hunits memory
  by_contra hroom
  rw [not_or, not_le, not_le] at hroom
  have hroom' : use.inUse (isMemoryOp ((afterDispatch config t).instr i).type) <
      config.units (isMemoryOp ((afterDispatch config t).instr i).type) := by
    rw [it.dispatched.type_eq, hclass.2]
    exact hunits.trans_lt hroom.2
  have hok := issueVisit_ok_iff.mpr ⟨hissued.trans_lt hroom.1, hroom', rfl⟩
  rw [hv] at hok
  cases hok

/-- What was not issued before an iteration has not completed when it ends. -/
theorem not_reached_retire_of_new (it : Iteration workload config s t s') (ht : Timed s') {i : ℕ}
    (hold : ¬s.Issued i) : ¬s'.Reached .retire i := by
  intro hretire
  have hissued : s'.Issued i := hretire.mono (by decide)
  rw [(ht.reached_iff it.placed_finish hissued).1, stamped_issue.fresh it i hold hissued,
    it.cycle_finish] at hretire
  have := (s'.instr i).one_le_ticks
  omega

/-- What an iteration issues is executing when it ends. -/
theorem mem_executing_of_new (it : Iteration workload config s t s') (ht : Timed s') {memory : Bool}
    {i : ℕ} (hclass : OfClass workload memory i) (hold : ¬s.Issued i) (hi : s'.Issued i) :
    i ∈ s'.executing memory :=
  (ht.mem_executing_iff it.placed_finish).mpr
    ⟨⟨hi, it.not_reached_retire_of_new ht hold⟩, hclass.2⟩

theorem ofClass_of_mem_issueMoved (it : Iteration workload config s t s') {i : ℕ}
    (hi : i ∈ issueMoved config (afterDispatch config t)) :
    OfClass workload (isMemoryOp (programAt workload i).type) i :=
  ⟨((it.reached_iff .execute i).mpr (.inr hi)).1.trans_le it.placed_finish.next_le, rfl⟩

/-- What an iteration issues of a class. -/
def issuedOf (workload : List Instruction) (config : SimulatorConfig) (t : SimState)
    (memory : Bool) : List ℕ :=
  (issueMoved config (afterDispatch config t)).filter
    fun i => isMemoryOp (programAt workload i).type == memory

theorem length_issueMoved_eq (workload : List Instruction) (config : SimulatorConfig)
    (t : SimState) :
    (issueMoved config (afterDispatch config t)).length =
      (issuedOf workload config t true).length + (issuedOf workload config t false).length := by
  rw [List.length_eq_length_filter_add fun i => isMemoryOp (programAt workload i).type == true]
  simp [issuedOf]

theorem nodup_issueMoved (it : Iteration workload config s t s') :
    (issueMoved config (afterDispatch config t)).Nodup :=
  it.nodup_readyQ_dispatched.sublist (Admission.taken_sublist _ _)

theorem nodup_issuedOf (it : Iteration workload config s t s') (memory : Bool) :
    (issuedOf workload config t memory).Nodup :=
  it.nodup_issueMoved.filter _

theorem mem_issuedOf (it : Iteration workload config s t s') {memory : Bool} {i : ℕ}
    (hi : i ∈ issuedOf workload config t memory) :
    OfClass workload memory i ∧ ¬s.Issued i ∧ s'.Issued i := by
  obtain ⟨hmoved, hclass⟩ := List.mem_filter.mp hi
  have hclass := beq_iff_eq.mp hclass
  exact ⟨hclass ▸ it.ofClass_of_mem_issueMoved hmoved, it.not_reached_of_movedTo .execute hmoved,
    (it.reached_iff .execute i).mpr (.inr hmoved)⟩

/-- One more member of its class beside what an iteration issues. -/
theorem countOf_insert (it : Iteration workload config s t s') {i : ℕ}
    (hi : i ∉ issueMoved config (afterDispatch config t)) (memory : Bool) :
    countOf workload memory (insert i (issueMoved config (afterDispatch config t)).toFinset) =
      (issuedOf workload config t memory).length +
        if isMemoryOp (programAt workload i).type = memory then 1 else 0 := by
  have hlist : ((issueMoved config (afterDispatch config t)).toFinset.filter
      fun j => isMemoryOp (programAt workload j).type = memory) =
        (issuedOf workload config t memory).toFinset := by
    ext j
    simp [issuedOf]
  have hcard := List.toFinset_card_of_nodup (it.nodup_issuedOf memory)
  rw [countOf, Finset.filter_insert, hlist]
  split
  · rw [Finset.card_insert_of_notMem, hcard]
    exact fun hmem => hi (List.mem_of_mem_filter (List.mem_toFinset.mp hmem))
  · rw [hcard, Nat.add_zero]

/-- An iteration issues no more of a class than the units in use at its end. -/
theorem length_issuedOf_le (it : Iteration workload config s t s') (ht : Timed s')
    (hb : Balanced config s') (memory : Bool) :
    (issuedOf workload config t memory).length ≤ s'.inUse memory := by
  rw [hb.inUse_eq, ← SimState.length_executing]
  have hsub : issuedOf workload config t memory ⊆ s'.executing memory := by
    intro i hi
    obtain ⟨hclass, hold, hnew⟩ := it.mem_issuedOf hi
    exact it.mem_executing_of_new ht hclass hold hnew
  exact ((it.nodup_issuedOf memory).subperm hsub).length_le

end Iteration

/-! ### One cycle -/

/-- Cycle `k` of two runs of one workload, the second on at least the resources of the
    first, without anomalies and ahead of it when the cycle begins. -/
structure SideBySide (workload : List Instruction) (c₁ c₂ : SimulatorConfig) (k : ℕ)
    (s₁ t₁ s₁' s₂ t₂ s₂' : SimState) : Prop where
  before₁ : ReachesIn workload c₁ k s₁
  before₂ : ReachesIn workload c₂ k s₂
  after₁ : ReachesIn workload c₁ (k + 1) s₁'
  after₂ : ReachesIn workload c₂ (k + 1) s₂'
  it₁ : Iteration workload c₁ s₁ t₁ s₁'
  it₂ : Iteration workload c₂ s₂ t₂ s₂'
  atMost : c₁.AtMost c₂
  honoured : DepsHonoured workload
  free : AnomalyFree workload c₁ c₂
  ahead : Ahead s₁ s₂

namespace SideBySide

variable {workload : List Instruction} {c₁ c₂ : SimulatorConfig} {k : ℕ}
  {s₁ t₁ s₁' s₂ t₂ s₂' : SimState}

/-- What has completed in the first run has completed in the second. -/
theorem retire (b : SideBySide workload c₁ c₂ k s₁ t₁ s₁' s₂ t₂ s₂') {i : ℕ}
    (hi : s₁.Reached .retire i) : s₂.Reached .retire i := by
  have hissued₁ : s₁.Issued i := hi.mono (by decide)
  obtain ⟨hissued₂, hle⟩ := b.ahead.issued i hissued₁
  have hp₁ := b.it₁.placed
  have hp₂ := b.it₂.placed
  rw [((timed_of_reachesIn b.before₁).reached_iff hp₁ hissued₁).1, b.before₁.cycle_eq,
    hp₁.ticks_eq] at hi
  rw [((timed_of_reachesIn b.before₂).reached_iff hp₂ hissued₂).1, b.before₂.cycle_eq, hp₂.ticks_eq]
  omega

/-- Dependencies that are satisfied in the first run are satisfied in the second. -/
theorem depsSatisfied (b : SideBySide workload c₁ c₂ k s₁ t₁ s₁' s₂ t₂ s₂') {i : ℕ}
    (hi : AccelSim.depsSatisfied (t₁.instr i) t₁.retiredIds = true) :
    AccelSim.depsSatisfied (t₂.instr i) t₂.retiredIds = true := by
  rw [depsSatisfied_iff, b.it₁.started.deps_eq, ← b.it₁.retiredIds_finish,
    (accounted_of_reachesIn b.after₁).retiredIds_eq] at hi
  rw [depsSatisfied_iff, b.it₂.started.deps_eq, ← b.it₂.retiredIds_finish,
    (accounted_of_reachesIn b.after₂).retiredIds_eq]
  intro dep hdep
  obtain ⟨d, hd, hid⟩ := List.mem_map.mp (List.mem_toFinset.mp (hi dep hdep))
  rw [← SimState.reached_done_iff, b.it₁.reached_done_iff] at hd
  refine List.mem_toFinset.mpr (List.mem_map.mpr ⟨d, ?_, ?_⟩)
  · rw [← SimState.reached_done_iff, b.it₂.reached_done_iff]
    exact b.retire hd
  · rw [b.it₂.placed_finish.id_eq, ← b.it₁.placed_finish.id_eq, hid]

theorem lt_length (b : SideBySide workload c₁ c₂ k s₁ t₁ s₁' s₂ t₂ s₂') {st : Stage} {i : ℕ}
    (hi : s₁'.Reached st i ∨ s₂'.Reached st i) : i < workload.length := by
  rcases hi with hi | hi
  · exact hi.1.trans_le b.it₁.placed_finish.next_le
  · exact hi.1.trans_le b.it₂.placed_finish.next_le

/-! ### Order and competition -/

/-- What the first run has brought to a stage before something that the second brings there
    later has come with it. -/
theorem reached_of_keepsOrder (b : SideBySide workload c₁ c₂ k s₁ t₁ s₁' s₂ t₂ s₂') {st : Stage}
    {S : Finset ℕ} (hkeep : KeepsOrder workload c₁ c₂ st S) {i j : ℕ} (hi : i ∈ S) (hj : j ∈ S)
    (h₁ : s₁'.Reached st i) (hnot : ¬s₂'.Reached st i) (h₂ : s₂'.Reached st j) :
    s₁'.Reached st j := by
  by_contra hlate
  exact hkeep i hi j hj ⟨k + 1, s₁', b.after₁, h₁, hlate⟩ ⟨k + 1, s₂', b.after₂, h₂, hnot⟩

/-- An instruction that the first run has made ready, with some that the second has: they are
    at hand together there. -/
theorem atHand_insert (b : SideBySide workload c₁ c₂ k s₁ t₁ s₁' s₂ t₂ s₂') {l : List ℕ}
    (hl : ∀ j ∈ l, s₂'.Reached .ready j ∧ ¬s₂'.Reached .retire j) {i : ℕ}
    (hi : s₁'.Reached .ready i) (hentered : s₂'.Reached .dispatch i)
    (hnot : ¬s₂'.Reached .retire i) : AtHand workload c₂ (insert i l.toFinset) := by
  refine ⟨k + 1, s₂', b.after₂, fun j hj => ?_⟩
  rw [Finset.mem_insert, List.mem_toFinset] at hj
  rcases hj with rfl | hj
  · refine ⟨hentered, fun d hdep => ?_, hnot⟩
    rw [b.it₂.reached_done_iff]
    exact b.retire ((b.it₁.reached_done_iff d).mp (b.honoured c₁ _ _ b.after₁ j hi d hdep))
  · obtain ⟨hready, hbusy⟩ := hl j hj
    exact ⟨hready.mono (by decide), b.honoured c₂ _ _ b.after₂ j hready, hbusy⟩

theorem mem_insert_toFinset {l : List ℕ} (i : ℕ) {j : ℕ} (hj : j ∈ l) : j ∈ insert i l.toFinset :=
  Finset.mem_insert_of_mem (List.mem_toFinset.mpr hj)

/-! ### Becoming ready -/

/-- The second run makes ready what the first does. -/
theorem ready (b : SideBySide workload c₁ c₂ k s₁ t₁ s₁' s₂ t₂ s₂') {i : ℕ}
    (hi : s₁'.Reached .ready i) : s₂'.Reached .ready i := by
  by_contra hnot
  have hnot₂ : ¬s₂.Reached .ready i := fun h => hnot (b.it₂.reached_mono h)
  have hmoved₁ : i ∈ dispatchMoved c₁ t₁ := by
    rcases (b.it₁.reached_iff .ready i).mp hi with hold | hmoved
    · exact absurd (b.ahead.ready i hold) hnot₂
    · exact hmoved
  have hmoved₂ : i ∉ dispatchMoved c₂ t₂ := fun h =>
    hnot ((b.it₂.reached_iff .ready i).mpr (.inr h))
  have hentered₂ : s₂.Reached .dispatch i := by
    have hentered₁ := b.it₁.reached_dispatch_of_ready hi
    rw [(inOrder_of_reachesIn b.before₁).reached_dispatch_iff b.it₁.placed] at hentered₁
    rw [(inOrder_of_reachesIn b.before₂).reached_dispatch_iff b.it₂.placed]
    exact hentered₁.trans_le b.ahead.entered
  have hmem₂ : i ∈ t₂.dispatchQ := (b.it₂.mem_dispatchQ_start_iff i).mpr ⟨hentered₂, hnot₂⟩
  -- so the ready queue of the second run is full, and does not hold `i`
  have hfull := b.it₂.ready_full_of_held hmem₂ hmoved₂
    (b.depsSatisfied (depsSatisfied_of_mem_dispatchMoved hmoved₁))
  have hout : i ∉ (afterDispatch c₂ t₂).readyQ := fun h =>
    hnot ((b.it₂.mem_readyQ_dispatched_iff i).mp h).1
  have hqueue : ∀ j ∈ (afterDispatch c₂ t₂).readyQ,
      s₂'.Reached .ready j ∧ ¬s₂'.Reached .retire j := by
    intro j hj
    obtain ⟨hready, hissued⟩ := (b.it₂.mem_readyQ_dispatched_iff j).mp hj
    exact ⟨hready, b.it₂.not_reached_retire_of_new (timed_of_reachesIn b.after₂) hissued⟩
  have hat := b.atHand_insert hqueue hi (b.it₂.reached_mono hentered₂)
    fun h => hnot (h.mono (by decide))
  rcases b.free.ready _ hat with hkeep | hroom
  -- in order, the first run would have made all of it ready, and `i`
  · have hin : i ∈ (afterDispatch c₁ t₁).readyQ := by
      refine (b.it₁.mem_readyQ_dispatched_iff i).mpr ⟨hi, fun hissued => hnot₂ ?_⟩
      exact (b.ahead.issued i hissued).1.mono (by decide)
    have hsub : ∀ j ∈ (afterDispatch c₂ t₂).readyQ, j ∈ (afterDispatch c₁ t₁).readyQ := by
      intro j hj
      obtain ⟨hready, hissued⟩ := (b.it₂.mem_readyQ_dispatched_iff j).mp hj
      refine (b.it₁.mem_readyQ_dispatched_iff j).mpr
        ⟨?_, fun h => hissued (b.ahead.issued j h).1⟩
      exact b.reached_of_keepsOrder hkeep (Finset.mem_insert_self _ _) (mem_insert_toFinset i hj)
        hi hnot hready
    have hless := length_lt_of_subset b.it₂.nodup_readyQ_dispatched hsub hout hin
    have hcap := b.it₁.length_readyQ_dispatched_le (withinCapacity_of_reachesIn b.before₁)
    have := b.atMost.readyQueueCapacity
    omega
  · have hless := length_lt_of_card_insert_le b.it₂.nodup_readyQ_dispatched hout hroom
    omega

/-! ### Issue -/

/-- What has been issued by the end of the cycle in both runs was issued no later
    in the second. -/
theorem issueCycle_le (b : SideBySide workload c₁ c₂ k s₁ t₁ s₁' s₂ t₂ s₂') {i : ℕ}
    (h₁ : s₁'.Issued i) (h₂ : s₂'.Issued i) :
    (s₂'.instr i).issueCycle ≤ (s₁'.instr i).issueCycle := by
  by_cases hold : s₁.Issued i
  · obtain ⟨hissued₂, hle⟩ := b.ahead.issued i hold
    rw [stamped_issue.kept b.it₁ i hold, stamped_issue.kept b.it₂ i hissued₂]
    exact hle
  · have hlt := ((stamped_issue.reached_iff b.after₂ b.after₂ le_rfl i).1.mp h₂).2
    rw [stamped_issue.fresh b.it₁ i hold h₁, b.before₁.cycle_eq]
    exact Nat.le_of_lt_succ hlt

/-- An instruction that only the first run has issued, with some that the second has: they are
    at hand together there. -/
theorem atHand_insert_issued (b : SideBySide workload c₁ c₂ k s₁ t₁ s₁' s₂ t₂ s₂') {l : List ℕ}
    (hl : ∀ j ∈ l, s₂'.Issued j ∧ ¬s₂'.Reached .retire j) {i : ℕ} (hi : s₁'.Issued i)
    (hnot : ¬s₂'.Issued i) : AtHand workload c₂ (insert i l.toFinset) := by
  have hready : s₁'.Reached .ready i := hi.mono (by decide)
  refine b.atHand_insert ?_ hready ((b.ready hready).mono (by decide)) ?_
  · exact fun j hj => ⟨(hl j hj).1.mono (by decide), (hl j hj).2⟩
  · exact fun h => hnot (h.mono (by decide))

/-- An instruction that only the first run has issued is still executing there. -/
theorem mem_executing_of_not_issued (b : SideBySide workload c₁ c₂ k s₁ t₁ s₁' s₂ t₂ s₂')
    {memory : Bool} {i : ℕ} (hclass : OfClass workload memory i) (hi : s₁'.Issued i)
    (hnot : ¬s₂'.Issued i) : i ∈ s₁'.executing memory := by
  have hold : ¬s₁.Issued i := fun h => hnot (b.it₂.reached_mono (b.ahead.issued i h).1)
  exact b.it₁.mem_executing_of_new (timed_of_reachesIn b.after₁) hclass hold hi

/-- A unit is left in the second run for what only the first has issued. -/
theorem units_left (b : SideBySide workload c₁ c₂ k s₁ t₁ s₁' s₂ t₂ s₂') {memory : Bool} {i : ℕ}
    (hclass : OfClass workload memory i) (hi : s₁'.Issued i) (hnot : ¬s₂'.Issued i) :
    s₂'.inUse memory < c₂.units memory := by
  have hp₂ := b.it₂.placed_finish
  have hexec : ∀ {j}, j ∈ s₂'.executing memory →
      (s₂'.Issued j ∧ ¬s₂'.Reached .retire j) ∧ OfClass workload memory j := by
    intro j hj
    obtain ⟨hbusy, hjclass⟩ := ((timed_of_reachesIn b.after₂).mem_executing_iff hp₂).mp hj
    exact ⟨hbusy, b.lt_length (.inr hbusy.1), hjclass⟩
  have hout : i ∉ s₂'.executing memory := fun h => hnot (hexec h).1.1
  rw [(balanced_of_reachesIn b.after₂).inUse_eq, ← SimState.length_executing]
  have hat := b.atHand_insert_issued (fun _ hj => (hexec hj).1) hi hnot
  have hof : ∀ j ∈ insert i (s₂'.executing memory).toFinset, OfClass workload memory j := by
    intro j hj
    rw [Finset.mem_insert, List.mem_toFinset] at hj
    rcases hj with rfl | hj
    · exact hclass
    · exact (hexec hj).2
  rcases b.free.units memory _ hat hof with hkeep | hroom
  -- in order, the first run would be executing all of it, and `i`
  · have hsub : ∀ j ∈ s₂'.executing memory, j ∈ s₁'.executing memory := by
      intro j hj
      obtain ⟨⟨hissued₂, hbusy⟩, hjclass⟩ := hexec hj
      have hissued₁ := b.reached_of_keepsOrder hkeep (Finset.mem_insert_self _ _)
        (mem_insert_toFinset i hj) hi hnot hissued₂
      have hle := b.issueCycle_le hissued₁ hissued₂
      have hp₁ := b.it₁.placed_finish
      rw [((timed_of_reachesIn b.after₂).reached_iff hp₂ hissued₂).1, b.after₂.cycle_eq,
        hp₂.ticks_eq] at hbusy
      refine ((timed_of_reachesIn b.after₁).mem_executing_iff hp₁).mpr ⟨⟨hissued₁, ?_⟩, hjclass.2⟩
      rw [((timed_of_reachesIn b.after₁).reached_iff hp₁ hissued₁).1, b.after₁.cycle_eq,
        hp₁.ticks_eq]
      omega
    have hless := length_lt_of_subset (hp₂.nodup_executing memory) hsub hout
      (b.mem_executing_of_not_issued hclass hi hnot)
    have hused := (balanced_of_reachesIn b.after₁).inUse_le memory
    rw [(balanced_of_reachesIn b.after₁).inUse_eq, ← SimState.length_executing] at hused
    have := b.atMost.units memory
    omega
  · exact length_lt_of_card_insert_le (hp₂.nodup_executing memory) hout hroom

/-- The issue width leaves room in the second run for what only the first has issued. -/
theorem width_left (b : SideBySide workload c₁ c₂ k s₁ t₁ s₁' s₂ t₂ s₂') {memory : Bool} {i : ℕ}
    (hclass : OfClass workload memory i) (hi : s₁'.Issued i) (hnot : ¬s₂'.Issued i) :
    (issueMoved c₂ (afterDispatch c₂ t₂)).length < c₂.issueWidth := by
  have hold₁ : ¬s₁.Issued i := fun h => hnot (b.it₂.reached_mono (b.ahead.issued i h).1)
  have hin : i ∈ issueMoved c₁ (afterDispatch c₁ t₁) :=
    ((b.it₁.reached_iff .execute i).mp hi).resolve_left hold₁
  have hnew : ∀ j ∈ issueMoved c₂ (afterDispatch c₂ t₂), s₂'.Issued j ∧ ¬s₂.Issued j :=
    fun j hj => ⟨(b.it₂.reached_iff .execute j).mpr (.inr hj),
      b.it₂.not_reached_of_movedTo .execute hj⟩
  have hout : i ∉ issueMoved c₂ (afterDispatch c₂ t₂) := fun h => hnot (hnew i h).1
  have hbusy : ∀ j ∈ issueMoved c₂ (afterDispatch c₂ t₂), s₂'.Issued j ∧ ¬s₂'.Reached .retire j :=
    fun j hj => ⟨(hnew j hj).1,
      b.it₂.not_reached_retire_of_new (timed_of_reachesIn b.after₂) (hnew j hj).2⟩
  have hat := b.atHand_insert_issued hbusy hi hnot
  rcases b.free.width _ hat with hkeep | hroom
  -- in order, the first run would have issued all that the second did, and `i`
  · have hsub : ∀ j ∈ issueMoved c₂ (afterDispatch c₂ t₂),
        j ∈ issueMoved c₁ (afterDispatch c₁ t₁) := by
      intro j hj
      have hissued₁ := b.reached_of_keepsOrder hkeep (Finset.mem_insert_self _ _)
        (mem_insert_toFinset i hj) hi hnot (hnew j hj).1
      refine ((b.it₁.reached_iff .execute j).mp hissued₁).resolve_left fun hold => ?_
      exact (hnew j hj).2 (b.ahead.issued j hold).1
    have hless := length_lt_of_subset b.it₂.nodup_issueMoved hsub hout hin
    have hwidth := length_issueMoved_le c₁ (afterDispatch c₁ t₁)
    have := b.atMost.issueWidth
    omega
  -- else no more of a class is issued than there are units, or instructions at hand, of it
  · have hbalanced := balanced_of_reachesIn b.after₂
    have hle := b.it₂.length_issuedOf_le (timed_of_reachesIn b.after₂) hbalanced
    have hunits := b.units_left hclass hi hnot
    rw [b.it₂.countOf_insert hout, b.it₂.countOf_insert hout, hclass.2] at hroom
    rw [Iteration.length_issueMoved_eq workload]
    have := hle true
    have := hle false
    have := hbalanced.inUse_le true
    have := hbalanced.inUse_le false
    cases memory <;> simp only [reduceIte, reduceCtorEq] at hroom <;> omega

/-- The second run has issued what the first has. -/
theorem issued (b : SideBySide workload c₁ c₂ k s₁ t₁ s₁' s₂ t₂ s₂') {i : ℕ} (hi : s₁'.Issued i) :
    s₂'.Issued i := by
  by_contra hnot
  have hclass : OfClass workload (isMemoryOp (programAt workload i).type) i :=
    ⟨b.lt_length (.inl hi), rfl⟩
  have hmem : i ∈ (afterDispatch c₂ t₂).readyQ := by
    refine (b.it₂.mem_readyQ_dispatched_iff i).mpr ⟨b.ready (hi.mono (by decide)), ?_⟩
    exact fun h => hnot (b.it₂.reached_mono h)
  have hheld : i ∉ issueMoved c₂ (afterDispatch c₂ t₂) := fun h =>
    hnot ((b.it₂.reached_iff .execute i).mpr (.inr h))
  rcases b.it₂.issue_full_of_held hmem hheld hclass with hwidth | hunits
  · exact absurd (b.width_left hclass hi hnot) (Nat.not_lt.mpr hwidth)
  · exact absurd (b.units_left hclass hi hnot) (Nat.not_lt.mpr hunits)

/-! ### The front end -/

/-- The second run has entered into the dispatch queue what the first has. -/
theorem entered (b : SideBySide workload c₁ c₂ k s₁ t₁ s₁' s₂ t₂ s₂') :
    s₁'.entered ≤ s₂'.entered := by
  by_contra hlt
  have ho₁ := inOrder_of_reachesIn b.before₁
  have ho₂ := inOrder_of_reachesIn b.before₂
  have hreached₁ := (inOrder_of_reachesIn b.after₁).reached_dispatch_iff b.it₁.placed_finish
  have hreached₂ := (inOrder_of_reachesIn b.after₂).reached_dispatch_iff b.it₂.placed_finish
  have hqueue₁ := b.it₁.placed_finish.mem_queueOf_iff .dispatch .ready rfl
  have hqueue₂ := b.it₂.placed_finish.mem_queueOf_iff .dispatch .ready rfl
  -- the dispatch queue of the second run is full, and lacks the next index
  have hless : s₂'.dispatchQ.length < s₁'.dispatchQ.length := by
    refine length_lt_of_subset (b.it₂.placed_finish.nodup .dispatch) (a := s₂'.entered) ?_ ?_ ?_
    · intro j hj
      obtain ⟨hdispatch, hready⟩ := (hqueue₂ j).mp hj
      rw [hreached₂] at hdispatch
      exact (hqueue₁ j).mpr ⟨(hreached₁ j).mpr (by omega), fun h => hready (b.ready h)⟩
    · intro h
      exact lt_irrefl _ ((hreached₂ _).mp ((hqueue₂ _).mp h).1)
    · refine (hqueue₁ _).mpr ⟨(hreached₁ _).mpr (Nat.lt_of_not_le hlt), fun h => ?_⟩
      exact lt_irrefl _ ((hreached₂ _).mp ((b.ready h).mono (by decide)))
  have hcap := (withinCapacity_of_reachesIn b.after₁).dispatch_le
  have hentered₁ := b.it₁.entered_finish ho₁
  have hentered₂ := b.it₂.entered_finish ho₂
  rw [Iteration.dispatchRoom_afterIssue] at hentered₁ hentered₂
  rw [b.it₂.dispatchQ_finish, Iteration.dispatchRoom_afterIssue, List.length_append,
    List.length_take] at hless
  have hlen₁ := ho₁.length_le
  have hlen₂ := ho₂.length_le
  have hdecoded := b.ahead.decoded
  have hahead := b.ahead.entered
  have hwidth := b.atMost.dispatchWidth
  have hcapacity := b.atMost.dispatchQueueCapacity
  simp only [SimState.decoded] at hdecoded
  simp only [SimState.entered] at hahead hentered₁ hentered₂ hlt
  omega

/-- The second run is still ahead when the cycle ends. -/
theorem step (b : SideBySide workload c₁ c₂ k s₁ t₁ s₁' s₂ t₂ s₂') : Ahead s₁' s₂' where
  fetched := by
    have hfetch := b.atMost.fetchWidth
    have hahead := b.ahead.fetched
    rw [b.it₁.nextToFetch_finish, b.it₂.nextToFetch_finish]
    have := b.it₂.placed.next_le
    omega
  decoded := by
    have ho₁ := inOrder_of_reachesIn b.before₁
    have ho₂ := inOrder_of_reachesIn b.before₂
    have hwidth := b.atMost.decodeWidth
    have hfetched := b.ahead.fetched
    have hdecoded := b.ahead.decoded
    have hlen₁ := ho₁.length_le
    have hlen₂ := ho₂.length_le
    rw [b.it₁.decoded_finish ho₁, b.it₂.decoded_finish ho₂]
    simp only [SimState.decoded] at hdecoded ⊢
    omega
  entered := b.entered
  ready _ := b.ready
  issued _ hi := ⟨b.issued hi, b.issueCycle_le hi (b.issued hi)⟩

end SideBySide

end AccelSim
