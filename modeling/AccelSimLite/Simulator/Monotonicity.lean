import AccelSimLite.Simulator.Comparison

/-!
# Monotonicity

A configuration with more of every resource is ahead in every cycle of the two
runs, provided that instructions that compete for too few places keep their order.
So each instruction is fetched, issued and completed no later, and the run is no
longer. Whether the order is kept can be read off the workload where dependencies
grow along the file, and off the timestamps of the two runs.

## Main definitions

- `NoLater` — one record of an instruction has the timestamps of another, or earlier ones

## Main results

- `results_le_of_anomalyFree` — more resources are never slower without anomalies
- `resources_monotone` — independent instructions of one class have none
- `more_units_no_slower` — more units on a workload in program order
-/

namespace AccelSim

/-- The timestamps of the second record are at most those of the first. -/
structure NoLater (i₁ i₂ : Instruction) : Prop where
  enqueueCycle : i₂.enqueueCycle ≤ i₁.enqueueCycle
  issueCycle : i₂.issueCycle ≤ i₁.issueCycle
  completeCycle : i₂.completeCycle ≤ i₁.completeCycle

/-! ### Two runs -/

theorem Ahead.refl_initState (workload : List Instruction) :
    Ahead (initState workload) (initState workload) where
  fetched := le_rfl
  decoded := le_rfl
  entered := le_rfl
  ready _ h := h
  issued _ h := ⟨h, le_rfl⟩

/-- **A run on more resources stays ahead** of one that has made as many iterations. -/
theorem ahead_of_reachesIn {workload : List Instruction} {c₁ c₂ : SimulatorConfig}
    (hle : c₁.AtMost c₂) (hhonoured : DepsHonoured workload) (hfree : AnomalyFree workload c₁ c₂)
    {k : ℕ} {s₁ s₂ : SimState} (h₁ : ReachesIn workload c₁ k s₁)
    (h₂ : ReachesIn workload c₂ k s₂) : Ahead s₁ s₂ := by
  induction k generalizing s₁ s₂ with
  | zero =>
    cases h₁
    cases h₂
    exact Ahead.refl_initState workload
  | succ k ih =>
    have hafter₁ := h₁
    have hafter₂ := h₂
    cases h₁ with | step hu₁ _ hb₁ =>
    cases h₂ with | step hu₂ _ hb₂ =>
    obtain ⟨t₁, it₁⟩ := (placed_of_reachesIn hu₁).iteration hb₁
    obtain ⟨t₂, it₂⟩ := (placed_of_reachesIn hu₂).iteration hb₂
    have b : SideBySide workload c₁ c₂ k _ t₁ s₁ _ t₂ s₂ :=
      ⟨hu₁, hu₂, hafter₁, hafter₂, it₁, it₂, hle, hhonoured, hfree, ih hu₁ hu₂⟩
    exact b.step

section Exits

variable {workload : List Instruction} {c₁ c₂ : SimulatorConfig} {k₁ k₂ : ℕ} {s₁ s₂ : SimState}

/-- A run that is ahead is over when the other is. -/
theorem cycles_le_of_ahead (h₁ : ReachesIn workload c₁ k₁ s₁) (hexit₁ : hasWorkLeft s₁ = false)
    (h₂ : ReachesIn workload c₂ k₂ s₂)
    (hahead : ∀ j u₁ u₂, ReachesIn workload c₁ j u₁ → ReachesIn workload c₂ j u₂ → Ahead u₁ u₂) :
    k₂ ≤ k₁ := by
  by_contra hlt
  have hu := h₂.stateAfter (Nat.le_of_not_le hlt)
  have hpu := placed_of_reachesIn hu
  have hp₁ := placed_of_reachesIn h₁
  have hdone : ∀ i, i < workload.length → (stateAfter workload c₂ k₁).Reached .done i := by
    intro i hi
    have hdone₁ := hp₁.reached_done_of_exit hexit₁ hi
    have hissued₁ : s₁.Issued i := hdone₁.mono (by decide)
    obtain ⟨hissued, hle⟩ := (hahead k₁ s₁ _ h₁ hu).issued i hissued₁
    rw [((timed_of_reachesIn h₁).reached_iff hp₁ hissued₁).2, h₁.cycle_eq, hp₁.ticks_eq] at hdone₁
    rw [((timed_of_reachesIn hu).reached_iff hpu hissued).2, hu.cycle_eq, hpu.ticks_eq]
    omega
  have hexit := hpu.exit_of_reached_done hdone
  exact hlt (WhileLoop.ReachesIn.le_of_exit hu hexit h₂)

theorem noLater_of_ahead (h₁ : ReachesIn workload c₁ k₁ s₁) (hexit₁ : hasWorkLeft s₁ = false)
    (h₂ : ReachesIn workload c₂ k₂ s₂) (hexit₂ : hasWorkLeft s₂ = false)
    (hahead : ∀ j u₁ u₂, ReachesIn workload c₁ j u₁ → ReachesIn workload c₂ j u₂ → Ahead u₁ u₂)
    {i : ℕ} (hi : i < workload.length) : NoLater (s₁.instr i) (s₂.instr i) := by
  have hp₁ := placed_of_reachesIn h₁
  have hp₂ := placed_of_reachesIn h₂
  have hdone₁ := hp₁.reached_done_of_exit hexit₁ hi
  have hdone₂ := hp₂.reached_done_of_exit hexit₂ hi
  have hissue := stamped_issue.le_of_ahead h₁ h₂
    (fun j u₁ u₂ _ hu₁ hu₂ h => ((hahead j u₁ u₂ hu₁ hu₂).issued i h).1)
    (hdone₁.mono (by decide)) (hdone₂.mono (by decide))
  refine ⟨?_, hissue, ?_⟩
  · refine stamped_enqueue.le_of_ahead h₁ h₂ (fun j u₁ u₂ _ hu₁ hu₂ h => ?_)
      (hdone₁.mono (by decide)) (hdone₂.mono (by decide))
    rw [reached_fetch_iff] at h ⊢
    exact h.trans_le (hahead j u₁ u₂ hu₁ hu₂).fetched
  · rw [(h₁.timestamps_of_exit hexit₁ hi).2.1, (h₂.timestamps_of_exit hexit₂ hi).2.1, hp₁.ticks_eq,
      hp₂.ticks_eq]
    exact Nat.add_le_add_right hissue _

/-- **More resources are never slower** on a workload that has no anomalies on them. -/
theorem results_le_of_anomalyFree (hle : c₁.AtMost c₂) (hhonoured : DepsHonoured workload)
    (hfree : AnomalyFree workload c₁ c₂) {fuel₁ fuel₂ : ℕ} {r₁ r₂ : RunResult}
    (hrun₁ : runWorkload fuel₁ workload c₁ = .ok (some r₁))
    (hrun₂ : runWorkload fuel₂ workload c₂ = .ok (some r₂)) :
    List.Forall₂ NoLater r₁.instructions r₂.instructions ∧
      r₂.stats.totalCycles ≤ r₁.stats.totalCycles := by
  obtain ⟨k₁, s₁, _, h₁, hexit₁, rfl⟩ := runWorkload_eq_some_iff.mp hrun₁
  obtain ⟨k₂, s₂, _, h₂, hexit₂, rfl⟩ := runWorkload_eq_some_iff.mp hrun₂
  have hahead : ∀ j u₁ u₂, ReachesIn workload c₁ j u₁ → ReachesIn workload c₂ j u₂ →
      Ahead u₁ u₂ := fun _ _ _ hu₁ hu₂ => ahead_of_reachesIn hle hhonoured hfree hu₁ hu₂
  have hlen₁ := (placed_of_reachesIn h₁).length_eq
  have hlen₂ := (placed_of_reachesIn h₂).length_eq
  constructor
  · rw [show (resultOf c₁ s₁).instructions = s₁.instructions from rfl,
      show (resultOf c₂ s₂).instructions = s₂.instructions from rfl, s₁.instructions_eq_map,
      s₂.instructions_eq_map, hlen₁, hlen₂, List.forall₂_map_left_iff, List.forall₂_map_right_iff,
      List.forall₂_same]
    intro i hi
    exact noLater_of_ahead h₁ hexit₁ h₂ hexit₂ hahead (List.mem_range.mp hi)
  · change s₂.cycle ≤ s₁.cycle
    rw [h₁.cycle_eq, h₂.cycle_eq]
    exact cycles_le_of_ahead h₁ hexit₁ h₂ hahead

end Exits

/-! ### Keeping the order -/

section Order

variable {workload : List Instruction} {st : Stage} {S : Finset ℕ}

theorem KeepsOrder.subset {c₁ c₂ : SimulatorConfig} {T : Finset ℕ}
    (h : KeepsOrder workload c₁ c₂ st S) (hT : T ⊆ S) : KeepsOrder workload c₁ c₂ st T :=
  fun i hi j hj => h i (hT hi) j (hT hj)

/-- What comes to a stage in file order in both runs keeps its order. -/
theorem keepsOrder_of_closed (c₁ c₂ : SimulatorConfig)
    (h : ∀ config k s, ReachesIn workload config k s →
      ∀ i j, i < j → i ∈ S → j ∈ S → s.Reached st j → s.Reached st i) :
    KeepsOrder workload c₁ c₂ st S := by
  rintro i hi j hj ⟨k₁, s₁, hs₁, hi₁, hj₁⟩ ⟨k₂, s₂, hs₂, hj₂, hi₂⟩
  rcases Nat.lt_trichotomy i j with hij | rfl | hji
  · exact hi₂ (h c₂ k₂ s₂ hs₂ i j hij hi hj hj₂)
  · exact hj₁ hi₁
  · exact hj₁ (h c₁ k₁ s₁ hs₁ j i hji hj hi hi₁)

theorem keepsOrder_ready (c₁ c₂ : SimulatorConfig)
    (hsatisfied : ∀ config, SatisfiedInOrder workload config (· ∈ S)) :
    KeepsOrder workload c₁ c₂ .ready S :=
  keepsOrder_of_closed c₁ c₂ fun config _ _ h =>
    (readyOrdered_of_reachesIn (hsatisfied config) h).closed

theorem keepsOrder_issue (c₁ c₂ : SimulatorConfig)
    (hsatisfied : ∀ config, SatisfiedInOrder workload config (· ∈ S)) {memory : Bool}
    (hclass : ∀ i ∈ S, OfClass workload memory i) : KeepsOrder workload c₁ c₂ .execute S :=
  keepsOrder_of_closed c₁ c₂ fun config _ _ h =>
    issueOrdered_of_reachesIn (hsatisfied config) (fun i hi => (hclass i hi).2) h

/-- In a run that ends the order of issue is that of the issue cycles. -/
theorem comesBefore_issue_iff {config : SimulatorConfig} {k : ℕ} {s : SimState}
    (h : ReachesIn workload config k s) (hexit : hasWorkLeft s = false) {i j : ℕ}
    (hi : i < workload.length) (hj : j < workload.length) :
    ComesBefore workload config .execute i j ↔ (s.instr i).issueCycle < (s.instr j).issueCycle := by
  constructor
  · rintro ⟨m, u, hu, hissued, hlate⟩
    have hm : m ≤ k := WhileLoop.ReachesIn.le_of_exit h hexit hu
    rw [hu.eq_stateAfter] at hissued hlate
    have hlt := (h.issued_at_iff hexit hi hm).mp hissued
    have hle := mt (h.issued_at_iff hexit hj hm).mpr hlate
    omega
  · intro hlt
    have htimes := h.timestamps_of_exit hexit hj
    have hm : (s.instr j).issueCycle ≤ k := by omega
    exact ⟨_, _, h.stateAfter hm, (h.issued_at_iff hexit hi hm).mpr hlt,
      mt (h.issued_at_iff hexit hj hm).mp (lt_irrefl _)⟩

/-- Where the ready queue has room for all there are no anomalies between two runs that issue
    no two instructions in opposite orders. -/
theorem anomalyFree_of_issueCycles {c₁ c₂ : SimulatorConfig}
    (hroom : workload.length ≤ c₂.readyQueueCapacity) {fuel₁ fuel₂ : ℕ} {r₁ r₂ : RunResult}
    (hrun₁ : runWorkload fuel₁ workload c₁ = .ok (some r₁))
    (hrun₂ : runWorkload fuel₂ workload c₂ = .ok (some r₂))
    (horder : ∀ i < workload.length, ∀ j < workload.length,
      (programAt r₁.instructions i).issueCycle < (programAt r₁.instructions j).issueCycle →
        (programAt r₂.instructions i).issueCycle ≤ (programAt r₂.instructions j).issueCycle) :
    AnomalyFree workload c₁ c₂ := by
  obtain ⟨k₁, s₁, _, h₁, hexit₁, rfl⟩ := runWorkload_eq_some_iff.mp hrun₁
  obtain ⟨k₂, s₂, _, h₂, hexit₂, rfl⟩ := runWorkload_eq_some_iff.mp hrun₂
  have hissue : KeepsOrder workload c₁ c₂ .execute (Finset.range workload.length) := by
    intro i hi j hj hbefore₁ hbefore₂
    rw [Finset.mem_range] at hi hj
    rw [comesBefore_issue_iff h₁ hexit₁ hi hj] at hbefore₁
    rw [comesBefore_issue_iff h₂ hexit₂ hj hi] at hbefore₂
    exact Nat.not_lt.mpr (horder i hi j hj hbefore₁) hbefore₂
  refine ⟨fun S hS => .inr ?_, fun _ hS => .inl (hissue.subset hS.subset_range),
    fun _ _ hS _ => .inl (hissue.subset hS.subset_range)⟩
  have hcard := Finset.card_le_card hS.subset_range
  rw [Finset.card_range] at hcard
  exact hcard.trans hroom

end Order

/-! ### Independent instructions -/

/-- A run of instructions without dependencies never gets stuck. -/
theorem exists_exit_of_independent {workload : List Instruction} {config : SimulatorConfig}
    (hdeps : ∀ i ∈ workload, i.deps = []) (hpos : config.Positive) :
    ∃ k s, k ≤ cycleBound workload ∧ ReachesIn workload config k s ∧ hasWorkLeft s = false := by
  refine exists_exit_of_not_stuck hpos ?_
  intro k s t s' _ hwork _ it hstuck
  have hdispatch : s.dispatchQ = [] := by
    rw [List.eq_nil_iff_forall_not_mem]
    intro i hi
    have hlt := ((it.placed.mem_iff .dispatch i).mp hi).1.trans_le it.placed.next_le
    have hsatisfied : depsSatisfied (t.instr i) t.retiredIds = true := by
      rw [depsSatisfied_iff, it.started.deps_eq, hdeps _ (programAt_mem hlt)]
      intro dep hdep
      cases hdep
    rw [hstuck.waiting i hi] at hsatisfied
    cases hsatisfied
  have hdecode : s.decodeQ = [] := by
    refine hstuck.full.resolve_right (Nat.not_le.mpr ?_)
    rw [hdispatch]
    exact hpos.dispatchQueueCapacity
  have hfetched : s.instructions.length ≤ s.nextToFetch := by
    rw [it.placed.length_eq, hstuck.fetched]
  have hexit := hasWorkLeft_eq_false.mpr ⟨hfetched, hstuck.fetchQ, hdecode, hdispatch,
    hstuck.readyQ, hstuck.retireQ, hstuck.execSlots⟩
  rw [hexit] at hwork
  cases hwork

/-- Without dependencies an earlier start harms nothing within one class. -/
theorem anomalyFree_of_independent {workload : List Instruction} (c₁ c₂ : SimulatorConfig)
    (hdeps : ∀ i ∈ workload, i.deps = []) {memory : Bool}
    (hclass : ∀ i ∈ workload, isMemoryOp i.type = memory) : AnomalyFree workload c₁ c₂ := by
  have hsatisfied (S : Finset ℕ) (config : SimulatorConfig) :
      SatisfiedInOrder workload config (· ∈ S) := by
    refine NestedDeps.satisfiedInOrder (fun i j hij hj _ _ => ?_) config
    rw [hdeps _ (programAt_mem (hij.trans hj))]
    exact List.nil_subset _
  have hissue {S : Finset ℕ} (hS : AtHand workload c₂ S) :
      KeepsOrder workload c₁ c₂ .execute S := by
    have hof : ∀ i ∈ S, OfClass workload memory i := by
      intro i hi
      have hlt := Finset.mem_range.mp (hS.subset_range hi)
      exact ⟨hlt, hclass _ (programAt_mem hlt)⟩
    exact keepsOrder_issue c₁ c₂ (hsatisfied S) hof
  exact ⟨fun S _ => .inl (keepsOrder_ready c₁ c₂ (hsatisfied S)), fun _ hS => .inl (hissue hS),
    fun _ _ hS _ => .inl (hissue hS)⟩

/-- **Every resource is monotone** on independent instructions of one class: both
    runs end, and on at least the resources none of the timestamps is later. -/
theorem resources_monotone (workload : List Instruction) (c₁ c₂ : SimulatorConfig)
    (hdeps : ∀ i ∈ workload, i.deps = [])
    (hclass : (∀ i ∈ workload, i.type = .compute) ∨
      ∀ i ∈ workload, i.type = .load ∨ i.type = .store)
    (hpos₁ : c₁.Positive) (hpos₂ : c₂.Positive) (hle : c₁.AtMost c₂) :
    Terminates workload c₁ ∧ Terminates workload c₂ ∧
    ∀ fuel₁ fuel₂ r₁ r₂, runWorkload fuel₁ workload c₁ = .ok (some r₁) →
      runWorkload fuel₂ workload c₂ = .ok (some r₂) →
      List.Forall₂ NoLater r₁.instructions r₂.instructions ∧
        r₂.stats.totalCycles ≤ r₁.stats.totalCycles := by
  obtain ⟨memory, hmemory⟩ : ∃ memory, ∀ i ∈ workload, isMemoryOp i.type = memory := by
    rcases hclass with hcompute | hmem
    · exact ⟨false, fun i hi => by rw [hcompute i hi]; rfl⟩
    · refine ⟨true, fun i hi => ?_⟩
      rcases hmem i hi with htype | htype
      · rw [htype]
        rfl
      · rw [htype]
        rfl
  obtain ⟨k₁, s₁, _, h₁, hexit₁⟩ := exists_exit_of_independent hdeps hpos₁
  obtain ⟨k₂, s₂, _, h₂, hexit₂⟩ := exists_exit_of_independent hdeps hpos₂
  refine ⟨terminates_iff.mpr ⟨k₁, s₁, h₁, hexit₁⟩, terminates_iff.mpr ⟨k₂, s₂, h₂, hexit₂⟩, ?_⟩
  intro fuel₁ fuel₂ r₁ r₂ hrun₁ hrun₂
  exact results_le_of_anomalyFree hle (depsHonoured_of_independent hdeps)
    (anomalyFree_of_independent c₁ c₂ hdeps hmemory) hrun₁ hrun₂

/-- Three loads of one to three cycles. -/
def independentLoads : List Instruction :=
  [{ type := .load, executeLatency := 2 }, { type := .load, executeLatency := 3 },
    { type := .load }]

theorem resources_monotone_independentLoads :
    ∃ r₁ r₂, runWorkload 20 independentLoads { fetchWidth := 2 } = .ok (some r₁) ∧
      runWorkload 20 independentLoads { memoryPorts := 2 } = .ok (some r₂) ∧
      List.Forall₂ NoLater r₁.instructions r₂.instructions ∧
      r₂.stats.totalCycles ≤ r₁.stats.totalCycles := by
  have hrun₁ : ∃ r, runWorkload 20 independentLoads { fetchWidth := 2 } = .ok (some r) := ⟨_, rfl⟩
  have hrun₂ : ∃ r, runWorkload 20 independentLoads { memoryPorts := 2 } = .ok (some r) := ⟨_, rfl⟩
  obtain ⟨r₁, hrun₁⟩ := hrun₁
  obtain ⟨r₂, hrun₂⟩ := hrun₂
  refine ⟨r₁, r₂, hrun₁, hrun₂, ?_⟩
  exact (resources_monotone independentLoads _ _ (by decide) (.inr (by decide))
    (by constructor <;> decide) (by constructor <;> decide) (by constructor <;> decide)).2.2
    20 20 r₁ r₂ hrun₁ hrun₂

/-! ### More units -/

/-- **More units are never slower** on a workload in program order, where instructions that are
    at hand together and have not enough room keep their order. They always do where the
    dependencies of the earlier ones are dependencies of the later ones too, directly or
    through others: in becoming ready, and, if they are of one class, in being issued. -/
theorem more_units_no_slower (workload : List Instruction) (c₁ c₂ : SimulatorConfig)
    (hids : (workload.map fun i => i.id).Nodup) (hordered : ProgramOrdered workload)
    (hpos₁ : c₁.Positive) (hpos₂ : c₂.Positive)
    (hsame : c₂ = { c₁ with memoryPorts := c₂.memoryPorts, computeUnits := c₂.computeUnits })
    (hports : c₁.memoryPorts ≤ c₂.memoryPorts) (hcompute : c₁.computeUnits ≤ c₂.computeUnits) :
    Terminates workload c₁ ∧ Terminates workload c₂ ∧
    (∀ S : Finset ℕ, CoveredDeps workload (· ∈ S) →
      KeepsOrder workload c₁ c₂ .ready S ∧
      ∀ memory, (∀ i ∈ S, OfClass workload memory i) → KeepsOrder workload c₁ c₂ .execute S) ∧
    (AnomalyFree workload c₁ c₂ → ∀ fuel₁ fuel₂ r₁ r₂,
      runWorkload fuel₁ workload c₁ = .ok (some r₁) →
      runWorkload fuel₂ workload c₂ = .ok (some r₂) →
      r₂.stats.totalCycles ≤ r₁.stats.totalCycles) := by
  have hle : c₁.AtMost c₂ := by
    rw [hsame]
    exact ⟨le_rfl, le_rfl, le_rfl, le_rfl, hcompute, hports, le_rfl, le_rfl⟩
  obtain ⟨k₁, s₁, _, h₁, hexit₁⟩ := exists_exit_of_programOrdered hids hordered hpos₁
  obtain ⟨k₂, s₂, _, h₂, hexit₂⟩ := exists_exit_of_programOrdered hids hordered hpos₂
  refine ⟨terminates_iff.mpr ⟨k₁, s₁, h₁, hexit₁⟩, terminates_iff.mpr ⟨k₂, s₂, h₂, hexit₂⟩,
    fun S hcovered => ?_, fun hfree fuel₁ fuel₂ r₁ r₂ hrun₁ hrun₂ => ?_⟩
  · have hsatisfied := hcovered.satisfiedInOrder hids hordered.depsNamed
    exact ⟨keepsOrder_ready c₁ c₂ hsatisfied, fun _ => keepsOrder_issue c₁ c₂ hsatisfied⟩
  · exact (results_le_of_anomalyFree hle (depsHonoured_of_nodup hids) hfree hrun₁ hrun₂).2

/-! The workloads that come with the simulator. -/

def computeHeavy : List Instruction :=
  [{ id := 1, executeLatency := 3 }, { id := 2, executeLatency := 3 },
    { id := 3, executeLatency := 2, deps := [1] }, { id := 4, executeLatency := 4, deps := [2] },
    { id := 5, executeLatency := 2, deps := [3, 4] }, { id := 6, deps := [5] }]

def memoryHeavy : List Instruction :=
  [{ id := 1, type := .load, executeLatency := 8, memoryBytes := 64 },
    { id := 2, type := .load, executeLatency := 8, memoryBytes := 64 },
    { id := 3, type := .load, executeLatency := 8, memoryBytes := 64 },
    { id := 4, executeLatency := 2, deps := [1] },
    { id := 5, type := .store, executeLatency := 6, memoryBytes := 64, deps := [4] },
    { id := 6, type := .load, executeLatency := 8, memoryBytes := 64, deps := [2] }]

def mixed : List Instruction :=
  [{ id := 1, type := .load, executeLatency := 8, memoryBytes := 64 },
    { id := 2, executeLatency := 3 }, { id := 3, executeLatency := 2, deps := [1] },
    { id := 4, type := .store, executeLatency := 6, memoryBytes := 64, deps := [3] },
    { id := 5, type := .load, executeLatency := 8, memoryBytes := 64, deps := [2] },
    { id := 6, executeLatency := 2, deps := [4, 5] }]

def queuePressure : List Instruction :=
  [{ id := 1, executeLatency := 5 }, { id := 2, executeLatency := 5 },
    { id := 3, executeLatency := 5 }, { id := 4, executeLatency := 5 },
    { id := 5, executeLatency := 5, deps := [1] }, { id := 6, executeLatency := 5, deps := [2] },
    { id := 7, executeLatency := 5, deps := [3] }, { id := 8, executeLatency := 5, deps := [4] }]

def shippedWorkloads : List (List Instruction) :=
  [computeHeavy, memoryHeavy, mixed, queuePressure]

/-- On one compute unit and on two, each of them is issued without overtaking. -/
theorem exists_runs_of_shipped : ∀ workload ∈ shippedWorkloads, ∃ r₁ r₂,
    runWorkload 60 workload { computeUnits := 1 } = .ok (some r₁) ∧
    runWorkload 60 workload {} = .ok (some r₂) ∧
    ∀ i < workload.length, ∀ j < workload.length,
      (programAt r₁.instructions i).issueCycle < (programAt r₁.instructions j).issueCycle →
        (programAt r₂.instructions i).issueCycle ≤ (programAt r₂.instructions j).issueCycle := by
  intro workload hmem
  simp only [shippedWorkloads, List.mem_cons, List.not_mem_nil, or_false] at hmem
  rcases hmem with rfl | rfl | rfl | rfl
  · exact ⟨_, _, rfl, rfl, by decide⟩
  · exact ⟨_, _, rfl, rfl, by decide⟩
  · exact ⟨_, _, rfl, rfl, by decide⟩
  · exact ⟨_, _, rfl, rfl, by decide⟩

theorem more_units_no_slower_shipped : shippedWorkloads.Forall fun workload => ∃ r₁ r₂,
    runWorkload 60 workload { computeUnits := 1 } = .ok (some r₁) ∧
    runWorkload 60 workload {} = .ok (some r₂) ∧
    r₂.stats.totalCycles ≤ r₁.stats.totalCycles := by
  rw [List.forall_iff_forall_mem]
  intro workload hmem
  obtain ⟨r₁, r₂, hrun₁, hrun₂, horder⟩ := exists_runs_of_shipped workload hmem
  have hids : ∀ workload ∈ shippedWorkloads, (workload.map fun i => i.id).Nodup := by decide
  have hordered : ∀ workload ∈ shippedWorkloads, ProgramOrdered workload := by
    unfold ProgramOrdered
    decide
  have hroom : ∀ workload ∈ shippedWorkloads, workload.length ≤ 16 := by decide
  refine ⟨r₁, r₂, hrun₁, hrun₂, ?_⟩
  exact (more_units_no_slower workload { computeUnits := 1 } {} (hids workload hmem)
    (hordered workload hmem) (by constructor <;> decide) (by constructor <;> decide) rfl (by decide)
    (by decide)).2.2.2 (anomalyFree_of_issueCycles (hroom workload hmem) hrun₁ hrun₂ horder)
    60 60 r₁ r₂ hrun₁ hrun₂

/-- Two loads and a longer compute operation. -/
def loadsBeforeCompute : List Instruction :=
  [{ id := 1, type := .load }, { id := 2, type := .load }, { id := 3, executeLatency := 2 }]

/-- A second memory port lets the second load take the issue slot of the compute
    operation, which then starts and ends a cycle later. -/
theorem second_port_slower :
    ¬∀ (workload : List Instruction) (c₁ c₂ : SimulatorConfig),
      (workload.map fun i => i.id).Nodup → ProgramOrdered workload → c₁.Positive → c₂.Positive →
      c₂ = { c₁ with memoryPorts := c₂.memoryPorts, computeUnits := c₂.computeUnits } →
      c₁.memoryPorts ≤ c₂.memoryPorts → c₁.computeUnits ≤ c₂.computeUnits →
      ∀ fuel₁ fuel₂ r₁ r₂, runWorkload fuel₁ workload c₁ = .ok (some r₁) →
        runWorkload fuel₂ workload c₂ = .ok (some r₂) →
        r₂.stats.totalCycles ≤ r₁.stats.totalCycles := by
  intro halways
  have hrun₁ : ∃ r, runWorkload 10 loadsBeforeCompute {} = .ok (some r) ∧
      r.stats.totalCycles = 7 := ⟨_, rfl, rfl⟩
  have hrun₂ : ∃ r, runWorkload 10 loadsBeforeCompute { memoryPorts := 2 } = .ok (some r) ∧
      r.stats.totalCycles = 8 := ⟨_, rfl, rfl⟩
  obtain ⟨r₁, hrun₁, htotal₁⟩ := hrun₁
  obtain ⟨r₂, hrun₂, htotal₂⟩ := hrun₂
  have hle := halways loadsBeforeCompute {} { memoryPorts := 2 } (by decide)
    (by unfold ProgramOrdered; decide) (by constructor <;> decide) (by constructor <;> decide) rfl
    (by decide) (by decide) 10 10 r₁ r₂ hrun₁ hrun₂
  omega

/-! The issue width is not the only resource through which an early instruction can
harm another: with one unit, or one entry of the ready queue, too few for them it
takes the place of one that more waits for. -/

/-- Room for eight of everything but units. -/
def eightWide : SimulatorConfig :=
  { fetchWidth := 8, decodeWidth := 8, dispatchWidth := 8, issueWidth := 8, computeUnits := 1,
    dispatchQueueCapacity := 8, readyQueueCapacity := 8 }

/-- Loads of which a later one can become ready first. -/
def crossedLoads : List Instruction :=
  [{ id := 1, executeLatency := 2 }, { id := 2, executeLatency := 2 },
    { id := 3, type := .load, executeLatency := 2, deps := [2] },
    { id := 4, type := .load, executeLatency := 3, deps := [1] }, { id := 5, type := .load },
    { id := 6, type := .load, executeLatency := 3, deps := [4, 5] }]

example : ∃ r₁ r₂, runWorkload 20 crossedLoads eightWide = .ok (some r₁) ∧
    runWorkload 20 crossedLoads { eightWide with computeUnits := 3 } = .ok (some r₂) ∧
    r₁.stats.totalCycles = 16 ∧ r₂.stats.totalCycles = 17 := ⟨_, _, rfl, rfl, rfl, rfl⟩

/-- Instructions that become ready one at a time, in either order. -/
def crossedPair : List Instruction :=
  [{ id := 1, executeLatency := 2 }, { id := 2 }, { id := 3, type := .load, deps := [2] },
    { id := 4, executeLatency := 2, deps := [1] }]

example : ∃ r₁ r₂,
    runWorkload 20 crossedPair { eightWide with readyQueueCapacity := 1 } = .ok (some r₁) ∧
    runWorkload 20 crossedPair
      { eightWide with readyQueueCapacity := 1, computeUnits := 3 } = .ok (some r₂) ∧
    r₁.stats.totalCycles = 10 ∧ r₂.stats.totalCycles = 11 := ⟨_, _, rfl, rfl, rfl, rfl⟩

end AccelSim
