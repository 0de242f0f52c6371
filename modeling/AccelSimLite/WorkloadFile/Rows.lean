import AccelSimLite.Lib.Fallible
import AccelSimLite.WorkloadFile.Defs

/-!
# The rows of a workload file

The loop of the loader skips blank lines and the header. What is left are the data
rows, and the loader succeeds exactly when every row can be read, no id is written
twice, and every dependency is the id of a row.

## Main definitions

- `dataRows` — the rows, read off the content
- `RowReads` — a row is read as an instruction

## Main results

- `readRow_eq_ok` — reading one row
- `loadWorkloadCsv_eq_ok` — loading a file
-/

namespace AccelSim

/-- The text of a column; a column that the row does not have is empty. -/
def column (row : List Char) (i : ℕ) : List Char := trim ((split row ',').getD i [])

/-- What the columns of a row say about its instruction. -/
structure RowReads (row : List Char) (instruction : Instruction) : Prop where
  columns : 4 ≤ (split row ',').length
  id : stoull (column row 0) = .ok instruction.id
  type : parseOpType (column row 1) = .ok instruction.type
  executeLatency : ∃ latency, stoull (column row 2) = .ok latency ∧
    instruction.executeLatency = if toUint32 latency = 0 then 1 else toUint32 latency
  memoryBytes : ∃ bytes, stoull (column row 3) = .ok bytes ∧
    instruction.memoryBytes = toUint32 bytes
  deps : readDeps (column row 4) = .ok instruction.deps
  stage : instruction.stage = .fetch
  cycles : instruction.enqueueCycle = 0 ∧ instruction.issueCycle = 0 ∧
    instruction.completeCycle = 0

theorem trim_nil : trim [] = [] := rfl

/-- The fifth column, as the loader reads it. -/
theorem depsRaw_eq_column (row : List Char) :
    (if 5 ≤ (split row ',').length then trim ((split row ',').getD 4 []) else []) =
      column row 4 := by
  split
  · rfl
  · rename_i hmissing
    have hnone : (split row ',')[4]? = none := List.getElem?_eq_none (by omega)
    rw [column, List.getD_eq_getElem?_getD, hnone, Option.getD_none, trim_nil]

theorem readRow_eq_ok {ids : List ℕ} {row : List Char} {instruction : Instruction} :
    readRow ids row = .ok instruction ↔
      RowReads row instruction ∧ instruction.id ∉ ids := by
  simp only [readRow, depsRaw_eq_column]
  constructor
  · intro h
    split at h
    · cases h
    rename_i hcolumns
    obtain ⟨id, hid, h⟩ := Fallible.bind_eq_ok.mp h
    split at h
    · cases h
    rename_i hfresh
    obtain ⟨type, htype, h⟩ := Fallible.bind_eq_ok.mp h
    obtain ⟨latency, hlatency, h⟩ := Fallible.bind_eq_ok.mp h
    obtain ⟨bytes, hbytes, h⟩ := Fallible.bind_eq_ok.mp h
    obtain ⟨deps, hdeps, h⟩ := Fallible.bind_eq_ok.mp h
    cases h
    exact ⟨⟨by omega, hid, htype, ⟨latency, hlatency, rfl⟩, ⟨bytes, hbytes, rfl⟩, hdeps,
      rfl, rfl, rfl, rfl⟩, hfresh⟩
  · rintro ⟨hreads, hfresh⟩
    obtain ⟨latency, hlatency, hexecute⟩ := hreads.executeLatency
    obtain ⟨bytes, hbytes, hmemory⟩ := hreads.memoryBytes
    rw [if_neg (by have := hreads.columns; omega)]
    refine Fallible.bind_eq_ok.mpr ⟨_, hreads.id, ?_⟩
    rw [if_neg hfresh]
    refine Fallible.bind_eq_ok.mpr ⟨_, hreads.type, ?_⟩
    refine Fallible.bind_eq_ok.mpr ⟨_, hlatency, ?_⟩
    refine Fallible.bind_eq_ok.mpr ⟨_, hbytes, ?_⟩
    refine Fallible.bind_eq_ok.mpr ⟨_, hreads.deps, ?_⟩
    obtain ⟨henqueue, hissue, hcomplete⟩ := hreads.cycles
    have hstage := hreads.stage
    cases instruction
    simp_all

/-! ### The loop -/

/-- The lines that are not blank, trimmed. -/
def nonBlank (lines : List (List Char)) : List (List Char) :=
  (lines.map trim).filter (· ≠ [])

def dropHeader : List (List Char) → List (List Char)
  | [] => []
  | line :: lines => if isHeader line then lines else line :: lines

/-- The lines of the file that hold an instruction. -/
def dataRows (content : List Char) : List (List Char) :=
  dropHeader (nonBlank (Getline.items '\n' content))

theorem nonBlank_cons (line : List Char) (lines : List (List Char)) :
    nonBlank (line :: lines) =
      if trim line = [] then nonBlank lines else trim line :: nonBlank lines := by
  by_cases h : trim line = []
  · simp [nonBlank, h]
  · simp [nonBlank, h]

theorem loadRow_eq_ok {s s' : LoadState} {row : List Char} :
    loadRow s row = .ok s' ↔
      ∃ instruction, RowReads row instruction ∧ instruction.id ∉ s.ids ∧
        s' = s.push instruction := by
  constructor
  · intro h
    obtain ⟨instruction, hread, hpush⟩ := Fallible.bind_eq_ok.mp h
    obtain ⟨hreads, hfresh⟩ := readRow_eq_ok.mp hread
    cases hpush
    exact ⟨instruction, hreads, hfresh, rfl⟩
  · rintro ⟨instruction, hreads, hfresh, rfl⟩
    exact Fallible.bind_eq_ok.mpr ⟨instruction, readRow_eq_ok.mpr ⟨hreads, hfresh⟩, rfl⟩

/-- After the first line the loop reads every line that is not blank. -/
theorem foldlM_loadLine {lines : List (List Char)} {s : LoadState} (hs : s.firstLine = false) :
    lines.foldlM loadLine s = (nonBlank lines).foldlM loadRow s := by
  induction lines generalizing s with
  | nil => rfl
  | cons line lines ih =>
    rw [List.foldlM_cons, nonBlank_cons]
    by_cases hblank : trim line = []
    · rw [if_pos hblank]
      have hskip : loadLine s line = .ok s := if_pos hblank
      rw [hskip]
      exact ih hs
    · rw [if_neg hblank, List.foldlM_cons]
      have hrow : loadLine s line = loadRow s (trim line) := by
        simp [loadLine, hblank, hs]
      rw [hrow]
      cases hread : loadRow s (trim line) with
      | error e => rfl
      | ok s' =>
        obtain ⟨instruction, -, -, rfl⟩ := loadRow_eq_ok.mp hread
        exact ih rfl

/-- The loop reads the data rows, whichever line it finds first. -/
theorem foldlM_loadLine_checkDeps (lines : List (List Char)) :
    (lines.foldlM loadLine {} >>= checkDeps) =
      ((dropHeader (nonBlank lines)).foldlM loadRow { firstLine := false } >>= checkDeps) := by
  induction lines with
  | nil => rfl
  | cons line lines ih =>
    rw [List.foldlM_cons, nonBlank_cons]
    by_cases hblank : trim line = []
    · rw [if_pos hblank]
      have hskip : loadLine {} line = .ok {} := if_pos hblank
      rw [hskip]
      exact ih
    · rw [if_neg hblank, dropHeader]
      by_cases hheader : isHeader (trim line) = true
      · rw [if_pos hheader]
        have hskip : loadLine {} line = .ok { firstLine := false } := by
          simp [loadLine, hblank, hheader]
        rw [hskip]
        exact congrArg (· >>= checkDeps) (foldlM_loadLine rfl)
      · rw [if_neg hheader, List.foldlM_cons]
        have hrow : loadLine {} line = loadRow { firstLine := false } (trim line) := by
          simp [loadLine, hblank, hheader, loadRow, LoadState.push]
        rw [hrow]
        cases hread : loadRow { firstLine := false } (trim line) with
        | error e => rfl
        | ok s' =>
          obtain ⟨instruction, -, -, rfl⟩ := loadRow_eq_ok.mp hread
          exact congrArg (· >>= checkDeps) (foldlM_loadLine rfl)

theorem loadWorkloadCsv_eq (path : String) (content : List Char) :
    loadWorkloadCsv path (some content) =
      ((dataRows content).foldlM loadRow { firstLine := false } >>= checkDeps) :=
  foldlM_loadLine_checkDeps _

/-! ### What the loader accepts -/

theorem foldlM_loadRow {rows : List (List Char)} {s s' : LoadState}
    (hfirst : s.firstLine = false) (hnodup : s.ids.Nodup) :
    rows.foldlM loadRow s = .ok s' ↔
      ∃ new, List.Forall₂ RowReads rows new ∧ (s.ids ++ new.map Instruction.id).Nodup ∧
        s' = ⟨s.instructions ++ new, s.ids ++ new.map Instruction.id, false⟩ := by
  induction rows generalizing s with
  | nil =>
    have hself : s = ⟨s.instructions ++ [], s.ids ++ [].map Instruction.id, false⟩ := by
      simp [← hfirst]
    constructor
    · intro h
      cases h
      exact ⟨[], .nil, by simpa using hnodup, hself⟩
    · rintro ⟨new, hreads, -, rfl⟩
      cases hreads
      exact congrArg Except.ok hself
  | cons row rows ih =>
    rw [List.foldlM_cons, Fallible.bind_eq_ok]
    have hpush (instruction : Instruction) (hfresh : instruction.id ∉ s.ids) :
        (s.push instruction).ids.Nodup := by
      rw [LoadState.push, List.nodup_append_comm]
      exact List.nodup_cons.mpr ⟨hfresh, hnodup⟩
    constructor
    · rintro ⟨u, hrow, h⟩
      obtain ⟨instruction, hread, hfresh, rfl⟩ := loadRow_eq_ok.mp hrow
      obtain ⟨new, hreads, hids, rfl⟩ := (ih rfl (hpush instruction hfresh)).mp h
      refine ⟨instruction :: new, .cons hread hreads, ?_, ?_⟩
      · simpa [LoadState.push] using hids
      · simp [LoadState.push]
    · rintro ⟨new, hreads, hids, rfl⟩
      cases hreads with
      | @cons _ instruction _ new hread hreads =>
        have hfresh : instruction.id ∉ s.ids := by
          intro hmem
          exact (List.nodup_append.mp hids).2.2 _ hmem _ (by simp) rfl
        refine ⟨s.push instruction, loadRow_eq_ok.mpr ⟨instruction, hread, hfresh, rfl⟩, ?_⟩
        refine (ih rfl (hpush instruction hfresh)).mpr ⟨new, hreads, ?_, ?_⟩
        · simpa [LoadState.push] using hids
        · simp [LoadState.push]

/-- The instructions of the rows, with the two checks on their ids. -/
structure LoadedFrom (rows : List (List Char)) (instructions : List Instruction) : Prop where
  reads : List.Forall₂ RowReads rows instructions
  nodup : (instructions.map Instruction.id).Nodup
  deps : ∀ instruction ∈ instructions, ∀ dep ∈ instruction.deps,
    dep ∈ instructions.map Instruction.id

theorem checkDeps_eq_ok {s : LoadState} {instructions : List Instruction} :
    checkDeps s = .ok instructions ↔ s.instructions = instructions ∧
      ∀ instruction ∈ s.instructions, ∀ dep ∈ instruction.deps, dep ∈ s.ids := by
  have hfind : (s.instructions.flatMap Instruction.deps).find? (· ∉ s.ids) = none ↔
      ∀ instruction ∈ s.instructions, ∀ dep ∈ instruction.deps, dep ∈ s.ids := by
    simp only [List.find?_eq_none, List.mem_flatMap, decide_eq_true_eq, not_not]
    constructor
    · intro h instruction hmem dep hdep
      exact h dep ⟨instruction, hmem, hdep⟩
    · rintro h dep ⟨instruction, hmem, hdep⟩
      exact h instruction hmem dep hdep
  rw [← hfind, checkDeps]
  cases (s.instructions.flatMap Instruction.deps).find? (· ∉ s.ids) with
  | none => simp
  | some dep => simp

theorem loadWorkloadCsv_eq_ok {path : String} {content : List Char}
    {instructions : List Instruction} :
    loadWorkloadCsv path (some content) = .ok instructions ↔
      LoadedFrom (dataRows content) instructions := by
  rw [loadWorkloadCsv_eq, Fallible.bind_eq_ok]
  constructor
  · rintro ⟨s, hloop, hcheck⟩
    obtain ⟨new, hreads, hnodup, rfl⟩ := (foldlM_loadRow rfl List.nodup_nil).mp hloop
    obtain ⟨rfl, hdeps⟩ := checkDeps_eq_ok.mp hcheck
    exact ⟨hreads, hnodup, hdeps⟩
  · intro h
    refine ⟨⟨instructions, instructions.map Instruction.id, false⟩, ?_, ?_⟩
    · exact (foldlM_loadRow rfl List.nodup_nil).mpr ⟨instructions, h.reads, h.nodup, rfl⟩
    · exact checkDeps_eq_ok.mpr ⟨rfl, h.deps⟩

end AccelSim
