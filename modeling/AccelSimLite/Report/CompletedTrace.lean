import AccelSimLite.Simulator.Utilisation
import AccelSimLite.StorageDatapath.WorkloadFile
import AccelSimLite.WorkloadFile.Split

/-!
# The completed trace

A model of the file `completed_trace.csv` that `write_report` writes. The text says what
the timestamps of all instructions are, and these say what most of the summary is.

## Main definitions

- `OpType.text` — `to_string` of an operation
- `completedTraceCsv` — the file
- `Instruction.traceRow` — what a row says

## Main results

- `completedTraceCsv_inj` — the file says what its rows are
- `trace_determines_statistics` — runs with the same file have the same statistics
-/

namespace AccelSim

def OpType.text : OpType → List Char
  | .compute => "COMPUTE".toList
  | .load => "LOAD".toList
  | .store => "STORE".toList

/-- How a stream prints an unsigned integer. -/
def printed (n : ℕ) : List Char := Nat.toDigits 10 n

def traceLine (instruction : Instruction) : List Char :=
  printed instruction.id ++ ',' :: (instruction.type.text ++ ',' ::
    (printed instruction.enqueueCycle ++ ',' :: (printed instruction.issueCycle ++ ',' ::
      printed instruction.completeCycle)))

def traceHeader : List Char := "id,op_type,enqueue_cycle,issue_cycle,complete_cycle".toList

def completedTraceCsv (result : RunResult) : List Char :=
  (traceHeader :: result.instructions.map traceLine).flatMap fun line => line ++ ['\n']

/-- The fields of a row. -/
structure TraceRow where
  id : ℕ
  type : OpType
  enqueueCycle : ℕ
  issueCycle : ℕ
  completeCycle : ℕ

def Instruction.traceRow (i : Instruction) : TraceRow :=
  ⟨i.id, i.type, i.enqueueCycle, i.issueCycle, i.completeCycle⟩

namespace TraceRow

/-- The instruction of the row is executing in a cycle. -/
def executesIn (t : ℕ) (row : TraceRow) : Bool :=
  decide (row.issueCycle ≤ t ∧ t < row.completeCycle)

def completesIn (t : ℕ) (row : TraceRow) : Bool := decide (row.completeCycle = t)

end TraceRow

/-! ### Reading the text -/

theorem printed_injective : Function.Injective printed := by
  intro m n h
  have hdecimal := congrArg decimal h
  rwa [printed, printed, StorageDatapath.decimal_toDigits, StorageDatapath.decimal_toDigits]
    at hdecimal

theorem not_mem_printed {c : Char} (hc : c.isDigit = false) (n : ℕ) : c ∉ printed n := by
  intro h
  rw [Nat.isDigit_of_mem_toDigits (by decide) (by decide) h] at hc
  cases hc

theorem OpType.text_injective : Function.Injective OpType.text := by
  intro a b
  cases a <;> cases b <;> decide

theorem OpType.not_mem_text {c : Char} (hc : c = ',' ∨ c = '\n') (type : OpType) :
    c ∉ type.text := by
  rcases hc with rfl | rfl <;> cases type <;> decide

/-- The repository's own `split` takes a row apart. -/
theorem split_traceLine (i : Instruction) :
    split (traceLine i) ',' = [printed i.id, i.type.text, printed i.enqueueCycle,
      printed i.issueCycle, printed i.completeCycle] := by
  have hnumber (n : ℕ) : ',' ∉ printed n := not_mem_printed rfl n
  have hne : traceLine i ≠ [] := List.append_ne_nil_of_left_ne_nil Nat.toDigits_ne_nil _
  rw [split_eq_splitOn hne, Getline.splitOn_eq_iff]
  refine ⟨List.cons_ne_nil _ _, ?_, ?_⟩
  · simp [hnumber, i.type.not_mem_text (.inl rfl)]
  · simp [traceLine, List.intercalate]

theorem traceLine_eq_iff (i j : Instruction) :
    traceLine i = traceLine j ↔ i.traceRow = j.traceRow := by
  constructor
  · intro h
    have hsplit := congrArg (split · ',') h
    simp only [split_traceLine, List.cons.injEq, and_true] at hsplit
    obtain ⟨hid, htype, henqueue, hissue, hcomplete⟩ := hsplit
    rw [Instruction.traceRow, Instruction.traceRow, printed_injective hid,
      OpType.text_injective htype, printed_injective henqueue, printed_injective hissue,
      printed_injective hcomplete]
  · intro h
    injection h with hid htype henqueue hissue hcomplete
    rw [traceLine, traceLine, hid, htype, henqueue, hissue, hcomplete]

theorem not_mem_traceLine (i : Instruction) : '\n' ∉ traceLine i := by
  have hnumber (n : ℕ) : '\n' ∉ printed n := not_mem_printed rfl n
  simp [traceLine, hnumber, i.type.not_mem_text (.inr rfl)]

/-- **The file says what its rows are.** -/
theorem completedTraceCsv_inj (r₁ r₂ : RunResult) :
    completedTraceCsv r₁ = completedTraceCsv r₂ ↔
      r₁.instructions.map Instruction.traceRow = r₂.instructions.map Instruction.traceRow := by
  have hlines (r : RunResult) :
      Getline.items '\n' (completedTraceCsv r) =
        traceHeader :: r.instructions.map traceLine := by
    refine Getline.items_flatMap ?_
    rw [List.forall_mem_cons]
    refine ⟨by decide, fun line hline => ?_⟩
    obtain ⟨i, _, rfl⟩ := List.mem_map.mp hline
    exact not_mem_traceLine i
  have hrows (l₁ l₂ : List Instruction) :
      l₁.map traceLine = l₂.map traceLine ↔
        l₁.map Instruction.traceRow = l₂.map Instruction.traceRow := by
    induction l₁ generalizing l₂ with
    | nil => cases l₂ <;> simp
    | cons i l₁ ih =>
      cases l₂ with
      | nil => simp
      | cons j l₂ => simp only [List.map_cons, List.cons.injEq, traceLine_eq_iff, ih]
  rw [← hrows]
  constructor
  · intro h
    have hitems := congrArg (Getline.items '\n') h
    rw [hlines, hlines] at hitems
    exact (List.cons.inj hitems).2
  · intro h
    rw [completedTraceCsv, completedTraceCsv, h]

/-! ### What the rows determine -/

section

variable {l₁ l₂ : List Instruction}

/-- Rows that agree agree on whatever is computed from them. -/
theorem map_eq_of_traceRow (h : l₁.map Instruction.traceRow = l₂.map Instruction.traceRow)
    {β : Type*} (f : Instruction → β) (g : TraceRow → β) (hf : ∀ i, f i = g i.traceRow) :
    l₁.map f = l₂.map f := by
  have hg := congrArg (List.map g) h
  rwa [List.map_map, List.map_map, show g ∘ Instruction.traceRow = f from funext fun i =>
    (hf i).symm] at hg

theorem countP_eq_of_traceRow (h : l₁.map Instruction.traceRow = l₂.map Instruction.traceRow)
    (p : Instruction → Bool) (q : TraceRow → Bool) (hp : ∀ i, p i = q i.traceRow) :
    l₁.countP p = l₂.countP p := by
  have hmap := congrArg (List.countP id) (map_eq_of_traceRow h p q hp)
  rwa [List.countP_map, List.countP_map] at hmap

theorem exists_iff_of_traceRow (h : l₁.map Instruction.traceRow = l₂.map Instruction.traceRow)
    (p : Instruction → Bool) (q : TraceRow → Bool) (hp : ∀ i, p i = q i.traceRow) :
    (∃ i ∈ l₁, p i = true) ↔ ∃ i ∈ l₂, p i = true := by
  have hmap := map_eq_of_traceRow h p q hp
  have hmem (l : List Instruction) : (∃ i ∈ l, p i = true) ↔ true ∈ l.map p := by
    rw [List.mem_map]
  rw [hmem, hmem, hmap]

end

section

variable {w₁ w₂ : List Instruction} {c₁ c₂ : SimulatorConfig} {k₁ k₂ : ℕ} {s₁ s₂ : SimState}

/-- The loop does not run for an empty workload. -/
theorem ReachesIn.eq_zero_of_nil {config : SimulatorConfig} {k : ℕ} {s : SimState}
    (h : ReachesIn [] config k s) : k = 0 := by
  cases k with
  | zero => rfl
  | succ k =>
    obtain ⟨hwork, _⟩ := WhileLoop.ReachesIn.exists_head h
    cases hwork

/-- A run is over no later than one with the same rows. -/
theorem ReachesIn.length_le_of_traceRow (h₁ : ReachesIn w₁ c₁ k₁ s₁)
    (h₂ : ReachesIn w₂ c₂ k₂ s₂) (hexit₁ : hasWorkLeft s₁ = false)
    (hexit₂ : hasWorkLeft s₂ = false)
    (hrows : s₁.instructions.map Instruction.traceRow =
      s₂.instructions.map Instruction.traceRow) : k₁ ≤ k₂ := by
  by_cases hne : w₁ = []
  · subst hne
    rw [h₁.eq_zero_of_nil]
    exact Nat.zero_le _
  · obtain ⟨i, hi, hlast⟩ := h₁.exists_last hexit₁ hne
    have hmap := map_eq_of_traceRow hrows Instruction.completeCycle TraceRow.completeCycle
      fun _ => rfl
    have hmem : (s₁.instr i).completeCycle ∈ s₁.instructions.map Instruction.completeCycle :=
      List.mem_map_of_mem (((placed_of_reachesIn h₁).mem_instructions_iff _).mpr ⟨i, hi, rfl⟩)
    rw [hmap, List.mem_map] at hmem
    obtain ⟨instruction, hinstruction, heq⟩ := hmem
    obtain ⟨j, hj, rfl⟩ :=
      ((placed_of_reachesIn h₂).mem_instructions_iff instruction).mp hinstruction
    have hle := (h₂.timestamps_of_exit hexit₂ hj).2.2
    omega

/-- The counter of fetch, by the rows. -/
theorem ReachesIn.fetch_busy_of_exit {workload : List Instruction} {config : SimulatorConfig}
    {k : ℕ} {s : SimState} (h : ReachesIn workload config k s) (hexit : hasWorkLeft s = false) :
    s.stats.stageBusyCycles.count .fetch =
      (s.instructions.map Instruction.enqueueCycle).toFinset.card - 1 := by
  by_cases hne : workload = []
  · subst hne
    have hinstructions : s.instructions = [] :=
      List.length_eq_zero_iff.mp (placed_of_reachesIn h).length_eq
    rw [h.stageBusyCycles_eq, h.eq_zero_of_nil, hinstructions]
    rfl
  · have hdistinct : (s.instructions.map Instruction.enqueueCycle).toFinset.card = _ :=
      h.distinctCycles_enqueueCycle hexit hne
    rw [hdistinct, h.fetch_busy_eq hexit hne, Nat.add_sub_cancel]

end

/-- **The trace determines the statistics**: two runs, of any workloads on any
    configurations, that write the same file have taken as many cycles and completed as
    many instructions with the same latency, and report the same utilisation of fetch,
    execute and retire and the same largest occupancy of the last two. -/
theorem trace_determines_statistics (w₁ w₂ : List Instruction) (c₁ c₂ : SimulatorConfig)
    (fuel₁ fuel₂ : ℕ) (r₁ r₂ : RunResult)
    (hrun₁ : runWorkload fuel₁ w₁ c₁ = .ok (some r₁))
    (hrun₂ : runWorkload fuel₂ w₂ c₂ = .ok (some r₂))
    (htrace : completedTraceCsv r₁ = completedTraceCsv r₂) :
    r₁.stats.totalCycles = r₂.stats.totalCycles ∧
    r₁.stats.completedOps = r₂.stats.completedOps ∧
    r₁.stats.totalLatency = r₂.stats.totalLatency ∧
    (∀ stage ∈ [BusyStage.fetch, .execute, .retire],
      r₁.stats.stageBusyCycles.count stage = r₂.stats.stageBusyCycles.count stage) ∧
    ∀ queue ∈ [QueueName.executeSlots, .retireQ],
      r₁.stats.maxQueueOccupancy.count queue = r₂.stats.maxQueueOccupancy.count queue := by
  obtain ⟨k₁, s₁, _, h₁, hexit₁, rfl⟩ := runWorkload_eq_some_iff.mp hrun₁
  obtain ⟨k₂, s₂, _, h₂, hexit₂, rfl⟩ := runWorkload_eq_some_iff.mp hrun₂
  have hrows := (completedTraceCsv_inj _ _).mp htrace
  change s₁.instructions.map Instruction.traceRow = s₂.instructions.map Instruction.traceRow
    at hrows
  obtain ⟨hexecute₁, hslots₁⟩ := h₁.execute_utilisation hexit₁
  obtain ⟨hexecute₂, hslots₂⟩ := h₂.execute_utilisation hexit₂
  obtain ⟨hretire₁, hqueue₁⟩ := h₁.retire_utilisation hexit₁
  obtain ⟨hretire₂, hqueue₂⟩ := h₂.retire_utilisation hexit₂
  refine ⟨?_, ?_, ?_, ?_, ?_⟩
  · change s₁.cycle = s₂.cycle
    rw [h₁.cycle_eq, h₂.cycle_eq]
    exact Nat.le_antisymm (h₁.length_le_of_traceRow h₂ hexit₁ hexit₂ hrows)
      (h₂.length_le_of_traceRow h₁ hexit₂ hexit₁ hrows.symm)
  · change s₁.stats.completedOps = s₂.stats.completedOps
    rw [h₁.completedOps_of_exit hexit₁, h₂.completedOps_of_exit hexit₂]
    simpa using congrArg List.length hrows
  · change s₁.stats.totalLatency = s₂.stats.totalLatency
    rw [h₁.totalLatency_eq_sum hexit₁, h₂.totalLatency_eq_sum hexit₂]
    exact congrArg (fun l => UInt64.ofNat (List.sum l)) (map_eq_of_traceRow hrows
      Instruction.latency (fun row => row.completeCycle - row.enqueueCycle) fun _ => rfl)
  · simp only [List.forall_mem_cons, List.not_mem_nil, false_imp_iff, implies_true, and_true]
    change s₁.stats.stageBusyCycles.count .fetch = s₂.stats.stageBusyCycles.count .fetch ∧
      s₁.stats.stageBusyCycles.count .execute = s₂.stats.stageBusyCycles.count .execute ∧
      s₁.stats.stageBusyCycles.count .retire = s₂.stats.stageBusyCycles.count .retire
    refine ⟨?_, ?_, ?_⟩
    · rw [h₁.fetch_busy_of_exit hexit₁, h₂.fetch_busy_of_exit hexit₂,
        map_eq_of_traceRow hrows Instruction.enqueueCycle TraceRow.enqueueCycle fun _ => rfl]
    · rw [hexecute₁, hexecute₂]
      exact congrArg Set.ncard (Set.ext fun t =>
        exists_iff_of_traceRow hrows _ (TraceRow.executesIn t) fun _ => rfl)
    · rw [hretire₁, hretire₂]
      exact congrArg Set.ncard (Set.ext fun t =>
        exists_iff_of_traceRow hrows _ (TraceRow.completesIn t) fun _ => rfl)
  · simp only [List.forall_mem_cons, List.not_mem_nil, false_imp_iff, implies_true, and_true]
    constructor
    · rw [funext fun t => countP_eq_of_traceRow hrows (Instruction.executesIn t)
        (TraceRow.executesIn t) fun _ => rfl] at hslots₁
      exact hslots₁.unique hslots₂
    · rw [funext fun t => countP_eq_of_traceRow hrows
        (fun i => decide (i.completeCycle = t)) (TraceRow.completesIn t) fun _ => rfl] at hqueue₁
      exact hqueue₁.unique hqueue₂

/-- A memory port more does not show in the file of a run that uses none. -/
theorem trace_determines_statistics_dependentPair :
    ∃ r₁ r₂, runWorkload 12 dependentPair {} = .ok (some r₁) ∧
      runWorkload 12 dependentPair { memoryPorts := 2 } = .ok (some r₂) ∧
      r₁.stats.totalLatency = r₂.stats.totalLatency := by
  have hruns : ∃ r₁ r₂, runWorkload 12 dependentPair {} = .ok (some r₁) ∧
      runWorkload 12 dependentPair { memoryPorts := 2 } = .ok (some r₂) ∧
      completedTraceCsv r₁ = completedTraceCsv r₂ := ⟨_, _, rfl, rfl, by decide +kernel⟩
  obtain ⟨r₁, r₂, hrun₁, hrun₂, htrace⟩ := hruns
  exact ⟨r₁, r₂, hrun₁, hrun₂, (trace_determines_statistics dependentPair dependentPair {}
    { memoryPorts := 2 } 12 12 r₁ r₂ hrun₁ hrun₂ htrace).2.2.1⟩

end AccelSim
