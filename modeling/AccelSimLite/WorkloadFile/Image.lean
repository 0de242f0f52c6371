import AccelSimLite.WorkloadFile.Acceptance
import AccelSimLite.WorkloadFile.Numbers
import AccelSimLite.WorkloadFile.Rows
import AccelSimLite.WorkloadFile.Split

/-!
# The workloads that a file can hold

Every workload of some file has distinct ids, known dependencies and numbers of the widths
of the code, and every such workload has a file. A dependency is written with a zero before
it, since a plain `0` stands for no dependency.

## Main definitions

- `Loadable` — what a loaded workload is like
- `writeWorkload` — a file for it

## Main results

- `loadedFrom_writeWorkload` — the file is read back
- `loadWorkloadCsv_image` — the workloads of all files
-/

namespace AccelSim

/-- What a workload of a file is like. -/
structure Loadable (workload : List Instruction) : Prop where
  nodup : (workload.map Instruction.id).Nodup
  known : ∀ i ∈ workload, ∀ dep ∈ i.deps, dep ∈ workload.map Instruction.id
  id_lt : ∀ i ∈ workload, i.id < 2 ^ 64
  executeLatency : ∀ i ∈ workload, 1 ≤ i.executeLatency ∧ i.executeLatency < 2 ^ 32
  memoryBytes_lt : ∀ i ∈ workload, i.memoryBytes < 2 ^ 32
  stage : ∀ i ∈ workload, i.stage = .fetch
  cycles : ∀ i ∈ workload, i.enqueueCycle = 0 ∧ i.issueCycle = 0 ∧ i.completeCycle = 0

/-! ### Writing a file -/

def depText (dep : ℕ) : List Char := '0' :: Nat.toDigits 10 dep

def depsText (deps : List ℕ) : List Char := [';'].intercalate (deps.map depText)

/-- The five columns. -/
def columnTexts (i : Instruction) : List (List Char) :=
  [Nat.toDigits 10 i.id, i.type.word, Nat.toDigits 10 i.executeLatency,
    Nat.toDigits 10 i.memoryBytes, depsText i.deps]

def rowText (i : Instruction) : List Char := [','].intercalate (columnTexts i)

def writeWorkload (workload : List Instruction) : List Char :=
  workload.flatMap fun i => rowText i ++ ['\n']

/-! ### Numbers and dependencies -/

theorem isDigit_toDigits {n : ℕ} {c : Char} (h : c ∈ Nat.toDigits 10 n) : c.isDigit = true :=
  Nat.isDigit_of_mem_toDigits (by decide) (by decide) h

theorem isDigit_depText {dep : ℕ} {c : Char} (h : c ∈ depText dep) : c.isDigit = true := by
  rcases List.mem_cons.mp h with rfl | hc
  · rfl
  · exact isDigit_toDigits hc

theorem stoull_toDigits {n : ℕ} (h : n < 2 ^ 64) : stoull (Nat.toDigits 10 n) = .ok n := by
  have hdecimal : decimal (Nat.toDigits 10 n) = n := Nat.ofDigitChars_ten_toDigits
  rw [stoull_of_digits Nat.toDigits_ne_nil (fun _ => isDigit_toDigits), hdecimal]
  rwa [hdecimal]

theorem stoull_depText {dep : ℕ} (h : dep < 2 ^ 64) : stoull (depText dep) = .ok dep := by
  have hdecimal : decimal (depText dep) = dep :=
    (show decimal (depText dep) = decimal (Nat.toDigits 10 dep) from rfl).trans
      Nat.ofDigitChars_ten_toDigits
  have hne : depText dep ≠ [] := List.cons_ne_nil _ _
  rw [stoull_of_digits hne (fun _ => isDigit_depText), hdecimal]
  rwa [hdecimal]

theorem stoull_lt {text : List Char} {n : ℕ} (h : stoull text = .ok n) : n < 2 ^ 64 := by
  simp only [stoull] at h
  split_ifs at h with _ hlarge hsign
  · rw [Except.ok.injEq] at h
    exact h ▸ Nat.mod_lt _ (by decide)
  · rw [Except.ok.injEq] at h
    omega

theorem trim_eq_self {text : List Char} (h : ∀ c ∈ text, isBlank c = false) :
    trim text = text := by
  have hdrop : text.dropWhile isBlank = text := by
    rw [List.dropWhile_eq_self_iff]
    intro hl
    simp [h _ (List.getElem_mem hl)]
  rw [trim, hdrop, List.rdropWhile_eq_self_iff]
  intro hne
  simp [h _ (List.getLast_mem hne)]

theorem isBlank_of_isDigit {c : Char} (h : c.isDigit = true) : isBlank c = false := by
  by_contra hblank
  rw [Bool.not_eq_false] at hblank
  rw [isDigit_of_isSpace (isSpace_of_isBlank hblank)] at h
  cases h

theorem exists_depsText_cons (dep : ℕ) (deps : List ℕ) :
    ∃ rest, depsText (dep :: deps) = depText dep ++ rest := by
  rw [depsText, List.map_cons]
  cases deps.map depText with
  | nil => exact ⟨[], by rw [List.intercalate_singleton, List.append_nil]⟩
  | cons next texts =>
    rw [List.intercalate_cons_cons, List.append_assoc]
    exact ⟨_, rfl⟩

theorem mem_intercalate {separator c : Char} {texts : List (List Char)}
    (h : c ∈ [separator].intercalate texts) : c = separator ∨ ∃ text ∈ texts, c ∈ text := by
  induction texts with
  | nil => cases h
  | cons text texts ih =>
    cases texts with
    | nil =>
      rw [List.intercalate_singleton] at h
      exact .inr ⟨text, List.mem_cons_self, h⟩
    | cons next texts =>
      rw [List.intercalate_cons_cons, List.mem_append, List.mem_append, List.mem_singleton] at h
      rcases h with (htext | hseparator) | hrest
      · exact .inr ⟨text, List.mem_cons_self, htext⟩
      · exact .inl hseparator
      · exact (ih hrest).imp_right fun ⟨text, htext, hc⟩ =>
          ⟨text, List.mem_cons_of_mem _ htext, hc⟩

/-- A dependency column has digits and separators only. -/
theorem of_mem_depsText {deps : List ℕ} {c : Char} (h : c ∈ depsText deps) :
    c = ';' ∨ c.isDigit = true := by
  refine (mem_intercalate h).imp_right ?_
  rintro ⟨text, htext, hc⟩
  obtain ⟨dep, -, rfl⟩ := List.mem_map.mp htext
  exact isDigit_depText hc

/-- The dependencies are read back, a 0 among them too. -/
theorem readDeps_depsText {deps : List ℕ} (h : ∀ dep ∈ deps, dep < 2 ^ 64) :
    readDeps (depsText deps) = .ok deps := by
  cases deps with
  | nil => rfl
  | cons dep deps =>
    obtain ⟨rest, hrest⟩ := exists_depsText_cons dep deps
    have hne : depsText (dep :: deps) ≠ [] := by
      rw [hrest]
      exact List.cons_ne_nil _ _
    have hzero : depsText (dep :: deps) ≠ ['0'] := by
      rw [hrest, depText]
      simp [Nat.toDigits_ne_nil]
    have hbar : '|' ∉ depsText (dep :: deps) := by
      intro hmem
      rcases of_mem_depsText hmem with hc | hc <;> revert hc <;> decide
    have hsplit : split (depsText (dep :: deps)) ';' = (dep :: deps).map depText := by
      rw [split_eq_splitOn hne]
      refine List.splitOn_intercalate ';' ?_ (by simp)
      intro text htext hmem
      obtain ⟨d, -, rfl⟩ := List.mem_map.mp htext
      exact absurd (isDigit_depText hmem) (by decide)
    have htrim : ((dep :: deps).map depText).map trim = (dep :: deps).map depText := by
      rw [List.map_map]
      refine List.map_congr_left fun d _ => trim_eq_self fun c hc => ?_
      exact isBlank_of_isDigit (isDigit_depText hc)
    have hkeep : ((dep :: deps).map depText).filter (fun text => text ≠ [] ∧ text ≠ ['0']) =
        (dep :: deps).map depText := by
      rw [List.filter_eq_self]
      intro text htext
      obtain ⟨d, -, rfl⟩ := List.mem_map.mp htext
      simp [depText, Nat.toDigits_ne_nil]
    rw [readDeps, if_pos ⟨hne, hzero⟩, separator, if_neg hbar, hsplit, htrim, hkeep,
      Fallible.mapM_eq_ok, List.forall₂_map_left_iff]
    exact List.forall₂_same.mpr fun d hd => stoull_depText (h d hd)

/-! ### Rows -/

theorem OpType.of_mem_word {type : OpType} {c : Char} (h : c ∈ type.word) :
    c ≠ ',' ∧ c ≠ '\n' ∧ isBlank c = false := by
  have hall : type.word.all (fun c => c ≠ ',' ∧ c ≠ '\n' ∧ isBlank c = false) = true := by
    cases type <;> decide
  exact of_decide_eq_true (List.all_eq_true.mp hall c h)

theorem of_isDigit {c : Char} (h : c.isDigit = true) :
    c ≠ ',' ∧ c ≠ '\n' ∧ isBlank c = false := by
  refine ⟨?_, ?_, isBlank_of_isDigit h⟩
  · rintro rfl
    cases h
  · rintro rfl
    cases h

theorem of_mem_columnTexts {i : Instruction} {text : List Char} (h : text ∈ columnTexts i)
    {c : Char} (hc : c ∈ text) : c ≠ ',' ∧ c ≠ '\n' ∧ isBlank c = false := by
  simp only [columnTexts, List.mem_cons, List.not_mem_nil, or_false] at h
  rcases h with rfl | rfl | rfl | rfl | rfl
  · exact of_isDigit (isDigit_toDigits hc)
  · exact OpType.of_mem_word hc
  · exact of_isDigit (isDigit_toDigits hc)
  · exact of_isDigit (isDigit_toDigits hc)
  · rcases of_mem_depsText hc with rfl | hdigit
    · decide
    · exact of_isDigit hdigit

theorem of_mem_rowText {i : Instruction} {c : Char} (hc : c ∈ rowText i) :
    c ≠ '\n' ∧ isBlank c = false := by
  rcases mem_intercalate hc with rfl | ⟨text, htext, hc⟩
  · decide
  · exact (of_mem_columnTexts htext hc).2

/-- A row begins with a digit. -/
theorem exists_rowText_cons (i : Instruction) :
    ∃ c rest, c.isDigit = true ∧ rowText i = c :: rest := by
  have hne : Nat.toDigits 10 i.id ≠ [] := Nat.toDigits_ne_nil
  obtain ⟨c, rest, hdigits⟩ := List.exists_cons_of_ne_nil hne
  have hdigit : c.isDigit = true := isDigit_toDigits (hdigits ▸ List.mem_cons_self)
  rw [rowText, columnTexts, hdigits, List.intercalate_cons_cons]
  exact ⟨c, _, hdigit, rfl⟩

theorem rowText_ne_nil (i : Instruction) : rowText i ≠ [] := by
  obtain ⟨c, rest, -, hrow⟩ := exists_rowText_cons i
  rw [hrow]
  exact List.cons_ne_nil c rest

theorem split_rowText (i : Instruction) : split (rowText i) ',' = columnTexts i := by
  rw [split_eq_splitOn (rowText_ne_nil i)]
  refine List.splitOn_intercalate ',' (fun text htext hmem => ?_) (List.cons_ne_nil _ _)
  exact (of_mem_columnTexts htext hmem).1 rfl

theorem column_rowText (i : Instruction) (k : ℕ) :
    column (rowText i) k = (columnTexts i).getD k [] := by
  rw [column, split_rowText]
  refine trim_eq_self fun c hc => ?_
  rw [List.getD_eq_getElem?_getD] at hc
  cases hk : (columnTexts i)[k]? with
  | none =>
    rw [hk] at hc
    cases hc
  | some text =>
    rw [hk] at hc
    exact (of_mem_columnTexts (List.mem_of_getElem? hk) hc).2.2

theorem Loadable.rowReads {workload : List Instruction} (h : Loadable workload)
    {i : Instruction} (hi : i ∈ workload) : RowReads (rowText i) i := by
  have hlatency := h.executeLatency i hi
  have hbytes := h.memoryBytes_lt i hi
  constructor
  case columns =>
    rw [split_rowText]
    exact Nat.le_succ 4
  case id =>
    rw [column_rowText]
    exact stoull_toDigits (h.id_lt i hi)
  case type =>
    rw [column_rowText]
    change parseOpType i.type.word = _
    cases i.type <;> decide
  case executeLatency =>
    refine ⟨i.executeLatency, ?_, ?_⟩
    · rw [column_rowText]
      exact stoull_toDigits (by omega)
    · rw [toUint32, Nat.mod_eq_of_lt hlatency.2, if_neg (by omega)]
  case memoryBytes =>
    refine ⟨i.memoryBytes, ?_, ?_⟩
    · rw [column_rowText]
      exact stoull_toDigits (by omega)
    · rw [toUint32, Nat.mod_eq_of_lt hbytes]
  case deps =>
    rw [column_rowText]
    refine readDeps_depsText fun dep hdep => ?_
    obtain ⟨other, hother, rfl⟩ := List.mem_map.mp (h.known i hi dep hdep)
    exact h.id_lt other hother
  case stage => exact h.stage i hi
  case cycles => exact h.cycles i hi

/-! ### Files -/

theorem dataRows_writeWorkload (workload : List Instruction) :
    dataRows (writeWorkload workload) = workload.map rowText := by
  have hlines : Getline.items '\n' (writeWorkload workload) = workload.map rowText := by
    rw [writeWorkload, ← List.flatMap_map (f := rowText) (g := fun line => line ++ ['\n'])]
    refine Getline.items_flatMap fun line hline hmem => ?_
    obtain ⟨i, -, rfl⟩ := List.mem_map.mp hline
    exact (of_mem_rowText hmem).1 rfl
  have htrim : (workload.map rowText).map trim = workload.map rowText := by
    rw [List.map_map]
    exact List.map_congr_left fun i _ => trim_eq_self fun c hc => (of_mem_rowText hc).2
  have hkeep : (workload.map rowText).filter (· ≠ []) = workload.map rowText := by
    rw [List.filter_eq_self]
    intro line hline
    obtain ⟨i, -, rfl⟩ := List.mem_map.mp hline
    simpa using rowText_ne_nil i
  rw [dataRows, hlines, nonBlank, htrim, hkeep]
  cases workload with
  | nil => rfl
  | cons i workload =>
    obtain ⟨c, rest, hdigit, hrow⟩ := exists_rowText_cons i
    have hheader : ¬isHeader (rowText i) = true := by
      rw [hrow, isHeader]
      intro hprefix
      obtain ⟨tail, htail⟩ := List.isPrefixOf_iff_prefix.mp hprefix
      have hc : 'i' = c := (List.cons.inj htail).1
      rw [← hc] at hdigit
      cases hdigit
    rw [List.map_cons, dropHeader, if_neg hheader]

theorem loadedFrom_writeWorkload {workload : List Instruction} (h : Loadable workload) :
    LoadedFrom (dataRows (writeWorkload workload)) workload := by
  rw [dataRows_writeWorkload]
  constructor
  case reads =>
    rw [List.forall₂_map_left_iff]
    exact List.forall₂_same.mpr fun i hi => h.rowReads hi
  case nodup => exact h.nodup
  case deps => exact h.known

theorem LoadedFrom.loadable {rows : List (List Char)} {workload : List Instruction}
    (h : LoadedFrom rows workload) : Loadable workload := by
  have hread : ∀ i ∈ workload, ∃ row, RowReads row i := by
    intro i hi
    obtain ⟨j, hj, rfl⟩ := List.getElem_of_mem hi
    obtain ⟨hlength, hget⟩ := List.forall₂_iff_get.mp h.reads
    exact ⟨_, hget j (by omega) hj⟩
  constructor
  case nodup => exact h.nodup
  case known => exact h.deps
  case id_lt =>
    intro i hi
    obtain ⟨row, hrow⟩ := hread i hi
    exact stoull_lt hrow.id
  case executeLatency =>
    intro i hi
    obtain ⟨row, hrow⟩ := hread i hi
    obtain ⟨latency, -, hlatency⟩ := hrow.executeLatency
    have hlt : toUint32 latency < 2 ^ 32 := Nat.mod_lt _ (by decide)
    rw [hlatency]
    split_ifs <;> omega
  case memoryBytes_lt =>
    intro i hi
    obtain ⟨row, hrow⟩ := hread i hi
    obtain ⟨bytes, -, hbytes⟩ := hrow.memoryBytes
    rw [hbytes]
    exact Nat.mod_lt _ (by decide)
  case stage =>
    intro i hi
    obtain ⟨row, hrow⟩ := hread i hi
    exact hrow.stage
  case cycles =>
    intro i hi
    obtain ⟨row, hrow⟩ := hread i hi
    exact hrow.cycles

/-- **The workloads of all files.** The loader returns a workload for some file exactly when
    the workload has distinct ids, known dependencies and numbers in the ranges of the code;
    the file that is written for such a workload, and for no other, is read back. -/
theorem loadWorkloadCsv_image (path : String) (workload : List Instruction) :
    ((∃ content, loadWorkloadCsv path (some content) = .ok workload) ↔ Loadable workload) ∧
      (loadWorkloadCsv path (some (writeWorkload workload)) = .ok workload ↔
        Loadable workload) := by
  simp only [loadWorkloadCsv_eq_ok]
  constructor
  · constructor
    · rintro ⟨content, h⟩
      exact h.loadable
    · exact fun h => ⟨writeWorkload workload, loadedFrom_writeWorkload h⟩
  · exact ⟨LoadedFrom.loadable, loadedFrom_writeWorkload⟩

end AccelSim
