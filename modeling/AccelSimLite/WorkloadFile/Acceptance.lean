import AccelSimLite.WorkloadFile.Dependencies

/-!
# The files that the loader accepts

Which texts are a workload file can be said of the rows alone, without running the
loop: each row has its columns, the columns can be read, no id is written twice,
and every dependency is written as an id somewhere.

## Main definitions

- `Acceptable` — the rows of a workload file
- `Guaranteed` — what may be relied on in a loaded workload
- `Malformed` — the mistakes that the loader looks for

## Main results

- `exists_loadWorkloadCsv_eq_ok` — a file is accepted when its rows are acceptable
- `loadWorkloadCsv_guaranteed` — what the loader returns, and when it throws
-/

namespace AccelSim

def OpType.word : OpType → List Char
  | .compute => "COMPUTE".toList
  | .load => "LOAD".toList
  | .store => "STORE".toList

/-- The text is the name of an operation, up to the case of its letters. -/
def Spells (text : List Char) (type : OpType) : Prop := text.map Char.toUpper = type.word

/-- The pieces of a dependency column that stand for an id. -/
def depPieces (depsRaw : List Char) : List (List Char) :=
  (depsRaw.splitOn (separator depsRaw)).filter fun piece =>
    trim piece ≠ [] ∧ trim piece ≠ ['0']

/-- The rows of a workload file. -/
structure Acceptable (rows : List (List Char)) : Prop where
  columns : ∀ row ∈ rows, 4 ≤ (split row ',').length
  numbers : ∀ row ∈ rows, ∀ i ∈ [0, 2, 3], ∃ n, stoull (column row i) = .ok n
  types : ∀ row ∈ rows, ∃ type, Spells (column row 1) type
  pieces : ∀ row ∈ rows, ∀ piece ∈ depPieces (column row 4), ∃ n, stoull piece = .ok n
  nodup : (writtenIds rows).Nodup
  known : ∀ row ∈ rows, ∀ piece ∈ depPieces (column row 4), ∀ dep, stoull piece = .ok dep →
    dep ∈ writtenIds rows

/-! ### Reading one row -/

theorem parseOpType_eq_ok {value : List Char} {type : OpType} :
    parseOpType value = .ok type ↔ Spells value type := by
  simp only [parseOpType, Spells]
  constructor
  · intro h
    split at h
    · cases h
      assumption
    · split at h
      · cases h
        assumption
      · split at h
        · cases h
          assumption
        · cases h
  · intro h
    rw [h]
    cases type <;> rfl

theorem mem_depPieces {depsRaw piece : List Char} :
    piece ∈ depPieces depsRaw ↔ piece ∈ depsRaw.splitOn (separator depsRaw) ∧
      trim piece ≠ [] ∧ trim piece ≠ ['0'] := by
  simp [depPieces]

/-- A column is read when its pieces are. -/
theorem exists_readDeps_eq_ok {depsRaw : List Char} :
    (∃ deps, readDeps depsRaw = .ok deps) ↔
      ∀ piece ∈ depPieces depsRaw, ∃ n, stoull piece = .ok n := by
  by_cases hraw : depsRaw ≠ [] ∧ depsRaw ≠ ['0']
  · rw [readDeps, if_pos hraw, Fallible.exists_mapM_eq_ok, split_eq_splitOn hraw.1]
    simp only [mem_depPieces, List.mem_filter, List.mem_map, decide_eq_true_eq]
    constructor
    · rintro h piece ⟨hpiece, hkept⟩
      obtain ⟨n, hn⟩ := h (trim piece) ⟨⟨piece, hpiece, rfl⟩, hkept⟩
      exact ⟨n, stoull_trim piece ▸ hn⟩
    · rintro h dep ⟨⟨piece, hpiece, rfl⟩, hkept⟩
      obtain ⟨n, hn⟩ := h piece ⟨hpiece, hkept⟩
      exact ⟨n, (stoull_trim piece).trans hn⟩
  · have hnone : depPieces depsRaw = [] := by
      rcases not_and_or.mp hraw with hnil | hzero
      · rw [not_not.mp hnil]
        rfl
      · rw [not_not.mp hzero]
        rfl
    rw [readDeps, if_neg hraw, hnone]
    simp

theorem mem_of_readDeps_pieces {depsRaw : List Char} {deps : List ℕ}
    (h : readDeps depsRaw = .ok deps) {dep : ℕ} :
    dep ∈ deps ↔ ∃ piece ∈ depPieces depsRaw, stoull piece = .ok dep := by
  rw [mem_of_readDeps h]
  simp only [mem_depPieces]
  constructor
  · rintro ⟨piece, hpiece, hzero, hread⟩
    refine ⟨piece, ⟨hpiece, ?_, hzero⟩, hread⟩
    intro hnil
    rw [← stoull_trim, hnil] at hread
    cases hread
  · rintro ⟨piece, ⟨hpiece, -, hzero⟩, hread⟩
    exact ⟨piece, hpiece, hzero, hread⟩

/-- A row is read when its columns are. -/
theorem exists_rowReads {row : List Char} :
    (∃ instruction, RowReads row instruction) ↔ 4 ≤ (split row ',').length ∧
      (∀ i ∈ [0, 2, 3], ∃ n, stoull (column row i) = .ok n) ∧
      (∃ type, Spells (column row 1) type) ∧
      ∀ piece ∈ depPieces (column row 4), ∃ n, stoull piece = .ok n := by
  rw [← exists_readDeps_eq_ok]
  constructor
  · rintro ⟨instruction, h⟩
    obtain ⟨latency, hlatency, -⟩ := h.executeLatency
    obtain ⟨bytes, hbytes, -⟩ := h.memoryBytes
    refine ⟨h.columns, ?_, ⟨_, parseOpType_eq_ok.mp h.type⟩, _, h.deps⟩
    simp only [List.forall_mem_cons, List.not_mem_nil, false_implies, implies_true, and_true]
    exact ⟨⟨_, h.id⟩, ⟨latency, hlatency⟩, ⟨bytes, hbytes⟩⟩
  · rintro ⟨hcolumns, hnumbers, ⟨type, htype⟩, deps, hdeps⟩
    simp only [List.forall_mem_cons, List.not_mem_nil, false_implies, implies_true,
      and_true] at hnumbers
    obtain ⟨⟨id, hid⟩, ⟨latency, hlatency⟩, ⟨bytes, hbytes⟩⟩ := hnumbers
    exact ⟨{ id := id, type := type
             executeLatency := if toUint32 latency = 0 then 1 else toUint32 latency
             memoryBytes := toUint32 bytes, deps := deps },
      hcolumns, hid, parseOpType_eq_ok.mpr htype, ⟨latency, hlatency, rfl⟩,
      ⟨bytes, hbytes, rfl⟩, hdeps, rfl, rfl, rfl, rfl⟩

/-! ### Loading a file -/

theorem LoadedFrom.acceptable {rows : List (List Char)} {instructions : List Instruction}
    (h : LoadedFrom rows instructions) : Acceptable rows := by
  have hrow (row) (hmem : row ∈ rows) := Fallible.exists_right h.reads hmem
  have hread (row) (hmem : row ∈ rows) :=
    let ⟨instruction, _, hreads⟩ := hrow row hmem
    exists_rowReads.mp ⟨instruction, hreads⟩
  refine ⟨fun row hmem => (hread row hmem).1, fun row hmem => (hread row hmem).2.1,
    fun row hmem => (hread row hmem).2.2.1, fun row hmem => (hread row hmem).2.2.2, ?_, ?_⟩
  · rw [writtenIds_eq h.reads]
    exact h.nodup
  · intro row hmem piece hpiece dep hdep
    obtain ⟨instruction, hinstruction, hreads⟩ := hrow row hmem
    rw [writtenIds_eq h.reads]
    refine h.deps instruction hinstruction dep ?_
    exact (mem_of_readDeps_pieces hreads.deps).mpr ⟨piece, hpiece, hdep⟩

theorem Acceptable.exists_loadedFrom {rows : List (List Char)} (h : Acceptable rows) :
    ∃ instructions, LoadedFrom rows instructions := by
  obtain ⟨instructions, hreads⟩ := Fallible.exists_forall₂.mpr fun row hmem =>
    exists_rowReads.mpr
      ⟨h.columns row hmem, h.numbers row hmem, h.types row hmem, h.pieces row hmem⟩
  have hids := writtenIds_eq hreads
  refine ⟨instructions, hreads, hids ▸ h.nodup, ?_⟩
  intro instruction hmem dep hdep
  obtain ⟨row, hrow, hread⟩ := Fallible.exists_left hreads hmem
  obtain ⟨piece, hpiece, hdep⟩ := (mem_of_readDeps_pieces hread.deps).mp hdep
  rw [← hids]
  exact h.known row hrow piece hpiece dep hdep

theorem exists_loadWorkloadCsv_eq_ok (path : String) {content : List Char} :
    (∃ instructions, loadWorkloadCsv path (some content) = .ok instructions) ↔
      Acceptable (dataRows content) := by
  simp only [loadWorkloadCsv_eq_ok]
  constructor
  · rintro ⟨instructions, h⟩
    exact h.acceptable
  · exact Acceptable.exists_loadedFrom

/-! ### What the simulator relies on -/

/-- What may be relied on in a workload that was loaded from the rows. -/
structure Guaranteed (rows : List (List Char)) (instructions : List Instruction) : Prop where
  /-- One instruction a row, in the order of the file. -/
  rows : List.Forall₂
    (fun row instruction => stoull (column row 0) = .ok instruction.id ∧
      Spells (column row 1) instruction.type)
    rows instructions
  nodup : (instructions.map Instruction.id).Nodup
  deps : ∀ instruction ∈ instructions, ∀ dep ∈ instruction.deps,
    dep ∈ instructions.map Instruction.id
  executeLatency : ∀ instruction ∈ instructions, 1 ≤ instruction.executeLatency

/-- The mistakes that the loader looks for. -/
inductive Malformed (rows : List (List Char)) : Prop
  | duplicateId {i j : ℕ} {row row' : List Char} {id : ℕ} (hne : i ≠ j)
      (hrow : rows[i]? = some row) (hrow' : rows[j]? = some row')
      (hid : stoull (column row 0) = .ok id) (hid' : stoull (column row' 0) = .ok id)
  | missingDependency {row piece : List Char} {dep : ℕ} (hrow : row ∈ rows)
      (hpiece : piece ∈ depPieces (column row 4)) (hdep : stoull piece = .ok dep)
      (hmissing : ∀ row' ∈ rows, stoull (column row' 0) ≠ .ok dep)
  | expectedColumns {row : List Char} (hrow : row ∈ rows)
      (hcolumns : (split row ',').length < 4)
  | unsupportedOpType {row : List Char} (hrow : row ∈ rows)
      (htype : ∀ type, ¬Spells (column row 1) type)

theorem mem_writtenIds {rows : List (List Char)} {id : ℕ} :
    id ∈ writtenIds rows ↔ ∃ row ∈ rows, stoull (column row 0) = .ok id := by
  simp only [writtenIds, List.mem_filterMap, Fallible.toOption_eq_some]

theorem RowReads.one_le_executeLatency {row : List Char} {instruction : Instruction}
    (h : RowReads row instruction) : 1 ≤ instruction.executeLatency := by
  obtain ⟨latency, -, hlatency⟩ := h.executeLatency
  rw [hlatency]
  split
  · rfl
  · omega

theorem LoadedFrom.guaranteed {rows : List (List Char)} {instructions : List Instruction}
    (h : LoadedFrom rows instructions) : Guaranteed rows instructions := by
  refine ⟨h.reads.imp fun _ _ hrow => ⟨hrow.id, parseOpType_eq_ok.mp hrow.type⟩, h.nodup,
    h.deps, ?_⟩
  intro instruction hmem
  obtain ⟨row, -, hread⟩ := Fallible.exists_left h.reads hmem
  exact hread.one_le_executeLatency

/-- No two rows of a workload file have the same id. -/
theorem Acceptable.index_eq {rows : List (List Char)} {i j : ℕ} {row row' : List Char} {id : ℕ}
    (h : Acceptable rows) (hrow : rows[i]? = some row) (hrow' : rows[j]? = some row')
    (hid : stoull (column row 0) = .ok id) (hid' : stoull (column row' 0) = .ok id) : i = j := by
  obtain ⟨instructions, hloaded⟩ := h.exists_loadedFrom
  obtain ⟨hi, rfl⟩ := List.getElem?_eq_some_iff.mp hrow
  obtain ⟨hj, rfl⟩ := List.getElem?_eq_some_iff.mp hrow'
  have hlength := hloaded.reads.length_eq
  have hi' := (hloaded.reads.get hi (hlength ▸ hi)).id
  have hj' := (hloaded.reads.get hj (hlength ▸ hj)).id
  simp only [List.get_eq_getElem] at hi' hj'
  rw [hid, Except.ok.injEq] at hi'
  rw [hid', Except.ok.injEq] at hj'
  have hbound : i < (instructions.map Instruction.id).length := by
    simpa using hlength ▸ hi
  refine (List.getElem?_inj hbound hloaded.nodup).mp ?_
  simp [List.getElem?_eq_getElem (hlength ▸ hi), List.getElem?_eq_getElem (hlength ▸ hj),
    ← hi', ← hj']

theorem Malformed.not_acceptable {rows : List (List Char)} (h : Malformed rows) :
    ¬Acceptable rows := by
  intro hrows
  cases h with
  | duplicateId hne hrow hrow' hid hid' =>
    exact hne (hrows.index_eq hrow hrow' hid hid')
  | missingDependency hrow hpiece hdep hmissing =>
    obtain ⟨row', hrow', hid⟩ :=
      mem_writtenIds.mp (hrows.known _ hrow _ hpiece _ hdep)
    exact hmissing row' hrow' hid
  | expectedColumns hrow hcolumns =>
    have := hrows.columns _ hrow
    omega
  | unsupportedOpType hrow htype =>
    obtain ⟨type, hspells⟩ := hrows.types _ hrow
    exact htype type hspells

/-- The loader throws, or returns a list that the simulator can rely on; and it throws
    for every mistake that it looks for. -/
theorem loadWorkloadCsv_guaranteed (path : String) (content : List Char) :
    ((∃ error, loadWorkloadCsv path (some content) = .error error) ∨
      ∃ instructions, loadWorkloadCsv path (some content) = .ok instructions ∧
        Guaranteed (dataRows content) instructions) ∧
      (Malformed (dataRows content) →
        ∃ error, loadWorkloadCsv path (some content) = .error error) := by
  cases hload : loadWorkloadCsv path (some content) with
  | error e => exact ⟨.inl ⟨e, rfl⟩, fun _ => ⟨e, rfl⟩⟩
  | ok instructions =>
    refine ⟨.inr ⟨instructions, rfl, (loadWorkloadCsv_eq_ok.mp hload).guaranteed⟩, ?_⟩
    intro hmalformed
    exact absurd ((exists_loadWorkloadCsv_eq_ok path).mp ⟨instructions, hload⟩)
      hmalformed.not_acceptable

end AccelSim
