import AccelSimLite.WorkloadFile.Numbers
import AccelSimLite.WorkloadFile.Rows
import AccelSimLite.WorkloadFile.Split

/-!
# The dependencies that the loader keeps

A column lists the ids between its separators, of which there are two. The loader
splits a column at one of them only: at `|` if there is one, and at `;` if not. An
id after a `;` is lost in a column that has both, and so is an instruction 0, whose
id is taken to mean that there is no dependency.

## Main definitions

- `listedIds` — the ids that a column lists, whichever separator stands between them
- `KeepsDeps` — the dependencies are the listed ids
- `Unambiguous` — the column says the same to the loader

## Main results

- `keepsDeps_of_oneSeparator` — columns in which nothing is lost
- `loadWorkloadCsv_keepsDeps_iff` — which rows of a file keep their dependencies
-/

namespace AccelSim

/-- The ids in a dependency column, read between the separators of both kinds. -/
def listedIds (depsRaw : List Char) : List ℕ :=
  ((depsRaw.splitOn '|').flatMap (·.splitOn ';')).filterMap fun token =>
    (stoull token).toOption

/-- The ids of the rows. -/
def writtenIds (rows : List (List Char)) : List ℕ :=
  rows.filterMap fun row => (stoull (column row 0)).toOption

/-- The dependencies are the ids that the column lists. A 0 may stand for no
    dependency where no instruction has that id. -/
structure KeepsDeps (ids : List ℕ) (depsRaw : List Char) (deps : List ℕ) : Prop where
  complete : ∀ id ∈ listedIds depsRaw, (id = 0 → 0 ∈ ids) → id ∈ deps
  sound : ∀ id ∈ deps, id ∈ listedIds depsRaw

/-- An id after a `;` also stands first between two `|`, and a 0 that is the id of
    an instruction is also written otherwise, such as `00`. -/
structure Unambiguous (ids : List ℕ) (depsRaw : List Char) : Prop where
  separators : '|' ∈ depsRaw → ∀ piece ∈ depsRaw.splitOn '|', ∀ token ∈ (piece.splitOn ';').tail,
    ∀ id ≠ 0, stoull token = .ok id → ∃ piece' ∈ depsRaw.splitOn '|', stoull piece' = .ok id
  zero : 0 ∈ ids → 0 ∈ listedIds depsRaw →
    ∃ piece ∈ depsRaw.splitOn (separator depsRaw), trim piece ≠ ['0'] ∧ stoull piece = .ok 0

theorem mem_listedIds {depsRaw : List Char} {id : ℕ} :
    id ∈ listedIds depsRaw ↔
      ∃ piece ∈ depsRaw.splitOn '|', ∃ token ∈ piece.splitOn ';', stoull token = .ok id := by
  simp only [listedIds, List.mem_filterMap, List.mem_flatMap, Fallible.toOption_eq_some]
  constructor
  · rintro ⟨token, ⟨piece, hpiece, htoken⟩, hread⟩
    exact ⟨piece, hpiece, token, htoken, hread⟩
  · rintro ⟨piece, hpiece, token, htoken, hread⟩
    exact ⟨token, ⟨piece, hpiece, htoken⟩, hread⟩

/-- An id written in plain digits between two separators is listed. -/
theorem listed_of_digits {depsRaw piece token : List Char}
    (hpiece : piece ∈ depsRaw.splitOn '|') (htoken : token ∈ piece.splitOn ';')
    (hne : trim token ≠ []) (hdigits : ∀ c ∈ trim token, c.isDigit = true)
    (hlt : decimal (trim token) < 2 ^ 64) : decimal (trim token) ∈ listedIds depsRaw := by
  refine mem_listedIds.mpr ⟨piece, hpiece, token, htoken, ?_⟩
  rw [← stoull_trim, stoull_of_digits hne hdigits hlt]

/-- What the loader makes of a column. -/
theorem mem_of_readDeps {depsRaw : List Char} {deps : List ℕ} (h : readDeps depsRaw = .ok deps)
    {id : ℕ} :
    id ∈ deps ↔ ∃ piece ∈ depsRaw.splitOn (separator depsRaw),
      trim piece ≠ ['0'] ∧ stoull piece = .ok id := by
  rw [readDeps] at h
  split at h
  · rename_i hraw
    rw [Fallible.mem_of_mapM_eq_ok h, split_eq_splitOn hraw.1]
    simp only [List.mem_filter, List.mem_map, decide_eq_true_eq]
    constructor
    · rintro ⟨dep, ⟨⟨piece, hpiece, rfl⟩, -, hzero⟩, hread⟩
      exact ⟨piece, hpiece, hzero, stoull_trim piece ▸ hread⟩
    · rintro ⟨piece, hpiece, hzero, hread⟩
      rw [← stoull_trim] at hread
      have hne : trim piece ≠ [] := by
        intro hnil
        rw [hnil] at hread
        cases hread
      exact ⟨trim piece, ⟨⟨piece, hpiece, rfl⟩, hne, hzero⟩, hread⟩
  · rename_i hraw
    cases h
    simp only [List.not_mem_nil, false_iff, not_exists, not_and]
    rcases not_and_or.mp hraw with hnil | hzero
    · rw [not_not.mp hnil]
      rintro piece hpiece - hread
      rw [List.splitOn_nil, List.mem_singleton] at hpiece
      subst hpiece
      cases hread
    · rw [not_not.mp hzero]
      intro piece hpiece hne
      rw [show List.splitOn (separator ['0']) ['0'] = [['0']] by decide,
        List.mem_singleton] at hpiece
      subst hpiece
      exact absurd (by decide) hne

/-- The id that a piece between two `|` begins with is a listed one. -/
theorem listed_of_piece {depsRaw piece : List Char} {id : ℕ}
    (hpiece : piece ∈ depsRaw.splitOn '|') (hread : stoull piece = .ok id) :
    id ∈ listedIds depsRaw := by
  obtain ⟨token, tokens, hsplit⟩ :=
    List.exists_cons_of_ne_nil (List.splitOn_ne_nil ';' piece)
  refine mem_listedIds.mpr ⟨piece, hpiece, token, ?_, ?_⟩
  · rw [hsplit]
    exact List.mem_cons_self
  · rw [stoull_of_splitOn hsplit, hread]

/-- The loader never invents a dependency. -/
theorem listed_of_readDeps {depsRaw : List Char} {deps : List ℕ} (h : readDeps depsRaw = .ok deps)
    {id : ℕ} (hdep : id ∈ deps) : id ∈ listedIds depsRaw := by
  obtain ⟨piece, hpiece, -, hread⟩ := (mem_of_readDeps h).mp hdep
  by_cases hbar : '|' ∈ depsRaw
  · rw [separator, if_pos hbar] at hpiece
    exact listed_of_piece hpiece hread
  · rw [separator, if_neg hbar] at hpiece
    refine mem_listedIds.mpr ⟨depsRaw, ?_, piece, hpiece, hread⟩
    rw [List.splitOn_eq_singleton hbar]
    exact List.mem_singleton_self _

/-- A piece that reads as a positive id is not the text `0`, so the loader keeps it. -/
theorem mem_of_piece {depsRaw piece : List Char} {deps : List ℕ} (h : readDeps depsRaw = .ok deps)
    {id : ℕ} (hid : id ≠ 0) (hpiece : piece ∈ depsRaw.splitOn (separator depsRaw))
    (hread : stoull piece = .ok id) : id ∈ deps := by
  refine (mem_of_readDeps h).mpr ⟨piece, hpiece, ?_, hread⟩
  intro hzero
  rw [← stoull_trim, hzero] at hread
  cases hread
  exact hid rfl

theorem KeepsDeps.unambiguous {ids : List ℕ} {depsRaw : List Char} {deps : List ℕ}
    (hkeeps : KeepsDeps ids depsRaw deps) (h : readDeps depsRaw = .ok deps) :
    Unambiguous ids depsRaw := by
  constructor
  case separators =>
    intro hbar piece hpiece token htoken id hid hread
    have hlisted : id ∈ listedIds depsRaw :=
      mem_listedIds.mpr ⟨piece, hpiece, token, List.mem_of_mem_tail htoken, hread⟩
    have hdep := hkeeps.complete id hlisted (fun hzero => absurd hzero hid)
    obtain ⟨piece', hpiece', -, hread'⟩ := (mem_of_readDeps h).mp hdep
    rw [separator, if_pos hbar] at hpiece'
    exact ⟨piece', hpiece', hread'⟩
  case zero =>
    intro hids hlisted
    exact (mem_of_readDeps h).mp (hkeeps.complete 0 hlisted (fun _ => hids))

/-- A positive id that is listed is kept, whichever separator stands in front of it. -/
theorem Unambiguous.mem_of_listed {ids : List ℕ} {depsRaw : List Char} {deps : List ℕ}
    (hclear : Unambiguous ids depsRaw) (h : readDeps depsRaw = .ok deps) {id : ℕ} (hid : id ≠ 0)
    (hlisted : id ∈ listedIds depsRaw) : id ∈ deps := by
  obtain ⟨piece, hpiece, token, htoken, hread⟩ := mem_listedIds.mp hlisted
  by_cases hbar : '|' ∈ depsRaw
  · have hsep : separator depsRaw = '|' := if_pos hbar
    cases hsplit : piece.splitOn ';' with
    | nil => exact absurd hsplit (List.splitOn_ne_nil ';' piece)
    | cons first rest =>
      rw [hsplit] at htoken
      rcases List.mem_cons.mp htoken with rfl | hrest
      · rw [stoull_of_splitOn hsplit] at hread
        exact mem_of_piece h hid (hsep ▸ hpiece) hread
      · obtain ⟨piece', hpiece', hread'⟩ := hclear.separators hbar piece hpiece token
          (by rw [hsplit]; exact hrest) id hid hread
        exact mem_of_piece h hid (hsep ▸ hpiece') hread'
  · have hsep : separator depsRaw = ';' := if_neg hbar
    rw [List.splitOn_eq_singleton hbar, List.mem_singleton] at hpiece
    subst hpiece
    exact mem_of_piece h hid (hsep ▸ htoken) hread

/-- One column. The two ways in which the loader loses a dependency are the two
    conditions. -/
theorem keepsDeps_iff {ids : List ℕ} {depsRaw : List Char} {deps : List ℕ}
    (h : readDeps depsRaw = .ok deps) :
    KeepsDeps ids depsRaw deps ↔ Unambiguous ids depsRaw := by
  constructor
  · intro hkeeps
    exact hkeeps.unambiguous h
  · intro hclear
    refine ⟨fun id hlisted hids => ?_, fun id => listed_of_readDeps h⟩
    by_cases hid : id = 0
    · subst hid
      exact (mem_of_readDeps h).mpr (hclear.zero (hids rfl) hlisted)
    · exact hclear.mem_of_listed h hid hlisted

/-- A column with one kind of separator keeps what it lists, in a file whose ids are
    all positive. -/
theorem keepsDeps_of_oneSeparator {ids : List ℕ} {depsRaw : List Char} {deps : List ℕ}
    (h : readDeps depsRaw = .ok deps) (hids : 0 ∉ ids)
    (hone : '|' ∈ depsRaw → ';' ∉ depsRaw) : KeepsDeps ids depsRaw deps := by
  refine (keepsDeps_iff h).mpr ⟨?_, fun hzero => absurd hzero hids⟩
  intro hbar piece hpiece token htoken
  have hpart : ';' ∉ piece := fun hmem =>
    hone hbar (Getline.mem_of_mem_splitOn hpiece hmem)
  rw [List.splitOn_eq_singleton hpart] at htoken
  exact absurd htoken List.not_mem_nil

theorem writtenIds_eq {rows : List (List Char)} {instructions : List Instruction}
    (h : List.Forall₂ RowReads rows instructions) :
    writtenIds rows = instructions.map Instruction.id := by
  induction h with
  | nil => rfl
  | cons hrow _ ih =>
    rw [writtenIds, List.filterMap_cons, hrow.id]
    exact congrArg _ ih

/-- Every row of an accepted file has an instruction, whose dependencies are the
    listed ids exactly when the column is unambiguous. -/
theorem loadWorkloadCsv_keepsDeps_iff {path : String} {content : List Char}
    {instructions : List Instruction}
    (h : loadWorkloadCsv path (some content) = .ok instructions) :
    List.Forall₂
      (fun row instruction =>
        KeepsDeps (instructions.map Instruction.id) (column row 4) instruction.deps ↔
          Unambiguous (writtenIds (dataRows content)) (column row 4))
      (dataRows content) instructions := by
  have hloaded := loadWorkloadCsv_eq_ok.mp h
  rw [writtenIds_eq hloaded.reads]
  exact hloaded.reads.imp fun _ _ hrow => keepsDeps_iff hrow.deps

/-- The workload of the parser's test. -/
def parserTest : List Char :=
  ("id,op_type,latency,memory_bytes,deps\n1,COMPUTE,3,0,\n2,LOAD,8,64,1\n" ++
    "3,STORE,6,64,1|2\n").toList

def parserTestInstructions : List Instruction :=
  [{ id := 1, executeLatency := 3 },
   { id := 2, type := .load, executeLatency := 8, memoryBytes := 64, deps := [1] },
   { id := 3, type := .store, executeLatency := 6, memoryBytes := 64, deps := [1, 2] }]

theorem loadWorkloadCsv_keepsDeps_iff_parserTest :
    loadWorkloadCsv "accelsim_parser_test.csv" (some parserTest) =
        .ok parserTestInstructions ∧
      List.Forall₂
        (fun row instruction =>
          KeepsDeps (parserTestInstructions.map Instruction.id) (column row 4)
              instruction.deps ↔
            Unambiguous (writtenIds (dataRows parserTest)) (column row 4))
        (dataRows parserTest) parserTestInstructions := by
  have hload : loadWorkloadCsv "accelsim_parser_test.csv" (some parserTest) =
      .ok parserTestInstructions := by decide +kernel
  exact ⟨hload, loadWorkloadCsv_keepsDeps_iff hload⟩

/-- A workload whose last row has both separators in its dependency column. -/
def mixedSeparators : List Char :=
  "1,COMPUTE,3,0,\n2,COMPUTE,3,0,\n3,COMPUTE,3,0,\n4,COMPUTE,2,0,1;2|3\n".toList

def mixedSeparatorsInstructions : List Instruction :=
  [{ id := 1, executeLatency := 3 }, { id := 2, executeLatency := 3 },
   { id := 3, executeLatency := 3 }, { id := 4, executeLatency := 2, deps := [1, 3] }]

/-- The file is accepted, and instruction 4 does not wait for instruction 2. -/
theorem dependency_lost :
    loadWorkloadCsv "mixed.csv" (some mixedSeparators) = .ok mixedSeparatorsInstructions ∧
      ¬List.Forall₂
        (fun row instruction =>
          KeepsDeps (mixedSeparatorsInstructions.map Instruction.id) (column row 4)
            instruction.deps)
        (dataRows mixedSeparators) mixedSeparatorsInstructions := by
  refine ⟨by decide +kernel, ?_⟩
  intro hkeeps
  have hrows : dataRows mixedSeparators =
      ["1,COMPUTE,3,0,".toList, "2,COMPUTE,3,0,".toList, "3,COMPUTE,3,0,".toList,
        "4,COMPUTE,2,0,1;2|3".toList] := by decide +kernel
  rw [hrows] at hkeeps
  rcases hkeeps with _ | ⟨-, _ | ⟨-, _ | ⟨-, _ | ⟨hlast, -⟩⟩⟩⟩
  have hlisted : 2 ∈ listedIds (column "4,COMPUTE,2,0,1;2|3".toList 4) := by decide
  have hdep := hlast.complete 2 hlisted (fun h => absurd h (by decide))
  exact absurd hdep (by decide)

end AccelSim
