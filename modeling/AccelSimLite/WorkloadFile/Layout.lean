import AccelSimLite.Lib.Spacing
import AccelSimLite.WorkloadFile.Acceptance
import Mathlib.Logic.Relation

/-!
# The layout of a workload file

The loader trims a line, then its columns, then the pieces of its dependencies. On
each of the three levels the text is spaced otherwise than before, and what is read
is the same.

## Main definitions

- `Edit` — one change of the layout

## Main results

- `Spaced.stoull_eq`, `Spaced.readDeps_eq` — the readers do not see the blanks
- `loadWorkloadCsv_layout` — nor does the loader
-/

namespace AccelSim

open Spacing (Spaced)

/-! ### Changes of the layout -/

/-- Spaces, tabs and carriage returns. -/
def Padding (pad : List Char) : Prop := ∀ c ∈ pad, c ∈ [' ', '\t', '\r']

/-- The separators of columns and of dependencies. -/
def separators : List Char := [',', '|', ';']

/-- The line that follows these is the header. -/
def IsHeaderAfter (before : List (List Char)) (line : List Char) : Prop :=
  nonBlank before = [] ∧ isHeader (trim line) = true

/-- Every `LF` is turned into a `CRLF`. -/
def crlf (content : List Char) : List Char :=
  content.flatMap fun c => if c = '\n' then ['\r', '\n'] else [c]

/-- One change of the layout of a file. -/
inductive Edit (content content' : List Char) : Prop
  | blankLine {before after : List (List Char)} {pad : List Char} (hpad : Padding pad)
      (hlines : content.splitOn '\n' = before ++ after)
      (hlines' : content'.splitOn '\n' = before ++ pad :: after)
  | crlf (h : content' = crlf content)
  | lineStart {before after : List (List Char)} {line pad : List Char} (hpad : Padding pad)
      (hlines : content.splitOn '\n' = before ++ line :: after)
      (hlines' : content'.splitOn '\n' = before ++ (pad ++ line) :: after)
  | lineEnd {before after : List (List Char)} {line pad : List Char} (hpad : Padding pad)
      (hlines : content.splitOn '\n' = before ++ line :: after)
      (hlines' : content'.splitOn '\n' = before ++ (line ++ pad) :: after)
  | beforeSeparator {before after : List (List Char)} {a b pad : List Char} {c : Char}
      (hpad : Padding pad) (hc : c ∈ separators) (hrow : ¬IsHeaderAfter before (a ++ c :: b))
      (hlines : content.splitOn '\n' = before ++ (a ++ c :: b) :: after)
      (hlines' : content'.splitOn '\n' = before ++ (a ++ pad ++ c :: b) :: after)
  | afterSeparator {before after : List (List Char)} {a b pad : List Char} {c : Char}
      (hpad : Padding pad) (hc : c ∈ separators) (hrow : ¬IsHeaderAfter before (a ++ c :: b))
      (hlines : content.splitOn '\n' = before ++ (a ++ c :: b) :: after)
      (hlines' : content'.splitOn '\n' = before ++ (a ++ c :: (pad ++ b)) :: after)

/-- A text that is the other, but for blanks at one place. -/
abbrev SpacedText : List Char → List Char → Prop := Spaced isBlank separators

theorem Padding.isBlank {pad : List Char} (h : Padding pad) :
    ∀ c ∈ pad, isBlank c = true := by
  intro c hc
  have hpad := h c hc
  simp only [List.mem_cons, List.not_mem_nil, or_false] at hpad
  rcases hpad with rfl | rfl | rfl <;> rfl

theorem trim_eq_spacing (x : List Char) : trim x = Spacing.trim isBlank x := rfl

theorem isBlank_of_mem_separators : ∀ c ∈ separators, isBlank c = false := by
  simp [separators, isBlank]

/-! ### The readers -/

theorem stoull_stop {text pad : List Char} (hpad : ∀ c ∈ pad, isBlank c = true) :
    stoull (text ++ pad) = stoull text := by
  rw [← stoull_trim, trim_eq_spacing, Spacing.trim_stop hpad, ← trim_eq_spacing, stoull_trim]

/-- A number ends before a separator. -/
theorem stoull_append_separator {c : Char} (hc : c ∈ separators) (a b : List Char) :
    stoull (a ++ c :: b) = stoull a := by
  simp only [separators, List.mem_cons, List.not_mem_nil, or_false] at hc
  rcases hc with rfl | rfl | rfl
  · exact stoull_append rfl (by simp)
  · exact stoull_append rfl (by simp)
  · exact stoull_append rfl (by simp)

theorem not_mem_word (type : OpType) : ∀ c ∈ separators, c ∉ type.word := by
  simp only [separators, List.forall_mem_cons, List.not_mem_nil, false_implies, implies_true,
    and_true]
  cases type <;> decide

theorem toUpper_of_mem_separators : ∀ c ∈ separators, c.toUpper = c := by
  simp only [separators, List.forall_mem_cons, List.not_mem_nil, false_implies, implies_true,
    and_true]
  decide

theorem isBlank_separator (depsRaw : List Char) : isBlank (separator depsRaw) = false := by
  rw [separator]
  split <;> rfl

namespace SpacedText

variable {x x' : List Char}

theorem stoull_eq (h : SpacedText x x') : stoull x = stoull x' := by
  cases h with
  | start hpad =>
    rw [← stoull_trim (_ ++ x), trim_eq_spacing, Spacing.trim_start hpad, ← trim_eq_spacing,
      stoull_trim]
  | stop hpad => rw [stoull_stop hpad]
  | before hc hpad =>
    -- reading stops at the separator, and the blanks before it end the text
    rw [stoull_append_separator hc, stoull_append_separator hc, stoull_stop hpad]
  | after hc hpad => rw [stoull_append_separator hc, stoull_append_separator hc]

theorem spells_iff (h : SpacedText x x') (type : OpType) :
    Spells (trim x) type ↔ Spells (trim x') type := by
  refine Spaced.trim_iff (P := fun y => Spells y type) h isBlank_of_mem_separators ?_
  intro y hy c hc hmem
  have hupper := List.mem_map_of_mem (f := Char.toUpper) hmem
  rw [toUpper_of_mem_separators c hc, hy] at hupper
  exact not_mem_word type c hc hupper

theorem trim_eq_iff (h : SpacedText x x') {y : List Char} (hy : ∀ c ∈ separators, c ∉ y) :
    trim x = y ↔ trim x' = y := by
  refine Spaced.trim_iff (P := fun z => z = y) h isBlank_of_mem_separators ?_
  rintro z rfl
  exact hy

theorem trim_eq_nil_iff (h : SpacedText x x') : trim x = [] ↔ trim x' = [] :=
  h.trim_eq_iff (by simp)

theorem trim_eq_zero_iff (h : SpacedText x x') : trim x = ['0'] ↔ trim x' = ['0'] :=
  h.trim_eq_iff (by simp [separators])

theorem trim (h : SpacedText x x') : SpacedText (trim x) (trim x') :=
  Spaced.trim h isBlank_of_mem_separators

theorem separator_eq (h : SpacedText x x') : separator x = separator x' := by
  simp only [separator, Spaced.mem_iff h (d := '|') rfl]

/-- The pieces that are kept, and what they are read as. -/
theorem mapM_pieces {l l' : List (List Char)} (h : List.Forall₂ SpacedText l l') :
    ((l.map AccelSim.trim).filter fun dep => dep ≠ [] ∧ dep ≠ ['0']).mapM stoull =
      ((l'.map AccelSim.trim).filter fun dep => dep ≠ [] ∧ dep ≠ ['0']).mapM stoull := by
  induction h with
  | nil => rfl
  | @cons t t' l l' htoken _ ih =>
    simp only [List.map_cons, List.filter_cons, decide_eq_true_eq, ne_eq,
      htoken.trim_eq_nil_iff, htoken.trim_eq_zero_iff]
    split
    · simp only [List.mapM_cons, stoull_trim, htoken.stoull_eq]
      exact congrArg _ (funext fun n => congrArg (· >>= _) ih)
    · exact ih

theorem readDeps_eq (h : SpacedText x x') :
    readDeps (AccelSim.trim x) = readDeps (AccelSim.trim x') := by
  simp only [readDeps, ne_eq, h.trim_eq_nil_iff, h.trim_eq_zero_iff]
  split
  · rename_i hraw
    -- `hraw` is about the spaced text: the condition was rewritten above
    have hraw' : AccelSim.trim x ≠ [] := mt h.trim_eq_nil_iff.mp hraw.1
    rw [split_eq_splitOn hraw', split_eq_splitOn hraw.1, h.trim.separator_eq]
    exact mapM_pieces (Spaced.splitOn h.trim (isBlank_separator _))
  · rfl

end SpacedText

/-! ### Rows -/

theorem forall₂_getD {l l' : List (List Char)} (h : List.Forall₂ SpacedText l l') (i : ℕ) :
    SpacedText (l.getD i []) (l'.getD i []) := by
  induction h generalizing i with
  | nil => exact .refl _
  | cons htoken _ ih =>
    cases i with
    | zero => exact htoken
    | succ i => exact ih i

/-- Rows whose columns are read alike. -/
structure SameColumns (row row' : List Char) : Prop where
  length_eq : (split row ',').length = (split row' ',').length
  stoull_eq : ∀ i, stoull (column row i) = stoull (column row' i)
  spells_iff : ∀ i type, Spells (column row i) type ↔ Spells (column row' i) type
  readDeps_eq : ∀ i, readDeps (column row i) = readDeps (column row' i)

namespace SameColumns

variable {row row' : List Char}

theorem refl (row : List Char) : SameColumns row row :=
  ⟨rfl, fun _ => rfl, fun _ _ => Iff.rfl, fun _ => rfl⟩

theorem forall₂_refl (rows : List (List Char)) : List.Forall₂ SameColumns rows rows :=
  List.forall₂_same.mpr fun row _ => refl row

theorem symm (h : SameColumns row row') : SameColumns row' row :=
  ⟨h.length_eq.symm, fun i => (h.stoull_eq i).symm, fun i type => (h.spells_iff i type).symm,
    fun i => (h.readDeps_eq i).symm⟩

theorem rowReads (h : SameColumns row row') {instruction : Instruction}
    (hreads : RowReads row instruction) : RowReads row' instruction := by
  have htype := (h.spells_iff 1 instruction.type).mp (parseOpType_eq_ok.mp hreads.type)
  refine ⟨?_, ?_, parseOpType_eq_ok.mpr htype, ?_, ?_, ?_, hreads.stage, hreads.cycles⟩
  · rw [← h.length_eq]
    exact hreads.columns
  · rw [← h.stoull_eq]
    exact hreads.id
  · simpa only [← h.stoull_eq] using hreads.executeLatency
  · simpa only [← h.stoull_eq] using hreads.memoryBytes
  · rw [← h.readDeps_eq]
    exact hreads.deps

end SameColumns

theorem SpacedText.sameColumns {row row' : List Char} (h : SpacedText row row')
    (hne : row ≠ []) (hne' : row' ≠ []) : SameColumns row row' := by
  have hsplit : List.Forall₂ SpacedText (split row ',') (split row' ',') := by
    rw [split_eq_splitOn hne, split_eq_splitOn hne']
    exact Spaced.splitOn h rfl
  have hcolumn := forall₂_getD hsplit
  exact ⟨hsplit.length_eq, fun i => (hcolumn i).trim.stoull_eq,
    fun i type => (hcolumn i).spells_iff type, fun i => (hcolumn i).readDeps_eq⟩

theorem LoadedFrom.of_sameColumns {rows rows' : List (List Char)}
    {instructions : List Instruction} (hrows : List.Forall₂ SameColumns rows rows')
    (h : LoadedFrom rows instructions) : LoadedFrom rows' instructions := by
  refine ⟨?_, h.nodup, h.deps⟩
  refine List.forall₂_iff_get.mpr ⟨hrows.length_eq ▸ h.reads.length_eq, ?_⟩
  intro i hi hi'
  have hrow : i < rows.length := hrows.length_eq ▸ hi
  exact (hrows.get hrow hi).rowReads (h.reads.get hrow hi')

/-! ### Lines -/

theorem nonBlank_append (lines lines' : List (List Char)) :
    nonBlank (lines ++ lines') = nonBlank lines ++ nonBlank lines' := by
  simp [nonBlank]

/-- The data rows are found between the line ends. -/
theorem dataRows_eq (content : List Char) :
    dataRows content = dropHeader (nonBlank (content.splitOn '\n')) := by
  by_cases hne : content = []
  · subst hne
    rfl
  · rw [← Getline.items_append_eq_splitOn hne, nonBlank_append, dataRows]
    split
    · rw [show nonBlank [[]] = [] from rfl, List.append_nil]
    · rw [show nonBlank [] = [] from rfl, List.append_nil]

theorem trim_ne_nil {c : Char} (hc : c ∈ separators) (a b : List Char) :
    trim (a ++ c :: b) ≠ [] :=
  List.ne_nil_of_mem (Spacing.mem_trim_append_cons (isBlank_of_mem_separators c hc))

theorem nonBlank_congr {lines lines' : List (List Char)}
    (h : List.Forall₂ (fun line line' => trim line = trim line') lines lines') :
    nonBlank lines = nonBlank lines' := by
  induction h with
  | nil => rfl
  | cons hline _ ih => rw [nonBlank_cons, nonBlank_cons, hline, ih]

theorem isHeader_iff {line : List Char} :
    isHeader line = true ↔ ∃ rest, line = 'i' :: 'd' :: ',' :: rest := by
  change ['i', 'd', ','].isPrefixOf line = true ↔ _
  rw [List.isPrefixOf_iff_prefix]
  constructor
  · rintro ⟨rest, rfl⟩
    exact ⟨rest, rfl⟩
  · rintro ⟨rest, rfl⟩
    exact ⟨rest, rfl⟩

/-- The header begins with its first comma and two letters, which are not blank. -/
theorem isHeader_of_before {a b pad : List Char} {c : Char}
    (hpad : ∀ c ∈ pad, isBlank c = true) (h : isHeader (a ++ pad ++ c :: b) = true) :
    isHeader (a ++ c :: b) = true := by
  rw [isHeader_iff] at h ⊢
  obtain ⟨rest, h⟩ := h
  cases pad with
  | nil => exact ⟨rest, by simpa using h⟩
  | cons p pad =>
    have hp := hpad p List.mem_cons_self
    -- a blank among the first three characters would be one of the header's
    match a, h with
    | [], h | [_], h | [_, _], h =>
      simp only [List.cons_append, List.nil_append, List.cons.injEq] at h
      simp only [h] at hp
      cases hp
    | _ :: _ :: _ :: a, h =>
      simp only [List.cons_append, List.cons.injEq] at h
      exact ⟨a ++ c :: b, by simp [h]⟩

theorem isHeader_of_after {a b pad : List Char} {c : Char} (hc : c ∈ separators)
    (h : isHeader (a ++ c :: (pad ++ b)) = true) : isHeader (a ++ c :: b) = true := by
  rw [isHeader_iff] at h ⊢
  obtain ⟨rest, h⟩ := h
  match a, h with
  | [], h | [_], h =>
    simp only [List.cons_append, List.nil_append, List.cons.injEq] at h
    simp only [h] at hc
    exact absurd hc (by decide)
  | [_, _], h =>
    simp only [List.cons_append, List.nil_append, List.cons.injEq] at h
    exact ⟨b, by simp [h]⟩
  | _ :: _ :: _ :: a, h =>
    simp only [List.cons_append, List.cons.injEq] at h
    exact ⟨a ++ c :: b, by simp [h]⟩

/-- A line that is not the header is not made into one by blanks. -/
theorem SpacedText.isHeader_trim {line line' : List Char} (h : SpacedText line line')
    (hheader : isHeader (AccelSim.trim line') = true) : isHeader (AccelSim.trim line) = true := by
  simp only [trim_eq_spacing] at hheader ⊢
  cases h with
  | start hpad => rwa [Spacing.trim_start hpad] at hheader
  | stop hpad => rwa [Spacing.trim_stop hpad] at hheader
  | @before a b pad c hc hpad =>
    obtain ⟨pad', hpad', hdrop⟩ := Spacing.dropWhile_stop a hpad
    have hblank := isBlank_of_mem_separators c hc
    rw [Spacing.trim_append_cons hblank, hdrop] at hheader
    rw [Spacing.trim_append_cons hblank]
    exact isHeader_of_before hpad' hheader
  | @after a b pad c hc hpad =>
    obtain ⟨pad', hpad', hdrop⟩ := Spacing.rdropWhile_start b hpad
    have hblank := isBlank_of_mem_separators c hc
    rw [Spacing.trim_append_cons hblank, hdrop] at hheader
    rw [Spacing.trim_append_cons hblank]
    exact isHeader_of_after hc hheader

theorem crlf_lines (content : List Char) :
    List.Forall₂ (fun line line' => line' = line ∨ line' = line ++ ['\r'])
      (content.splitOn '\n') ((crlf content).splitOn '\n') := by
  induction content with
  | nil => exact .cons (.inl rfl) .nil
  | cons c content ih =>
    rw [List.splitOn_cons_eq_if_modifyHead]
    by_cases hc : c = '\n'
    · subst hc
      exact .cons (.inr rfl) ih
    · have hcons : crlf (c :: content) = c :: crlf content := by
        simp [crlf, hc]
      have hbeq : ¬(c == '\n') = true := by simpa using hc
      rw [hcons, List.splitOn_cons_eq_if_modifyHead, if_neg hbeq, if_neg hbeq]
      generalize content.splitOn '\n' = lines at ih ⊢
      generalize (crlf content).splitOn '\n' = lines' at ih ⊢
      cases ih with
      | nil => exact .nil
      | cons hline hlines =>
        refine .cons ?_ hlines
        rcases hline with rfl | rfl
        · exact .inl rfl
        · exact .inr rfl

theorem nonBlank_crlf (content : List Char) :
    nonBlank ((crlf content).splitOn '\n') = nonBlank (content.splitOn '\n') := by
  refine (nonBlank_congr ((crlf_lines content).imp ?_)).symm
  rintro line line' (rfl | rfl)
  · rfl
  · exact (Spacing.trim_stop (by simp [isBlank])).symm

/-- One line among others, spaced otherwise. -/
theorem SpacedText.dataRows {line line' : List Char} (h : SpacedText line line')
    (before after : List (List Char)) (hne : AccelSim.trim line ≠ [])
    (hrow : ¬IsHeaderAfter before line) :
    List.Forall₂ SameColumns (dropHeader (nonBlank (before ++ line :: after)))
      (dropHeader (nonBlank (before ++ line' :: after))) := by
  have hne' : AccelSim.trim line' ≠ [] := mt h.trim_eq_nil_iff.mpr hne
  have hsame : List.Forall₂ SameColumns (AccelSim.trim line :: nonBlank after)
      (AccelSim.trim line' :: nonBlank after) :=
    .cons (h.trim.sameColumns hne hne') (SameColumns.forall₂_refl _)
  rw [nonBlank_append, nonBlank_append, nonBlank_cons, if_neg hne, nonBlank_cons, if_neg hne']
  cases hbefore : nonBlank before with
  | nil =>
    -- the line comes first, but neither it nor its spaced form is a header
    have hheader : ¬isHeader (AccelSim.trim line) = true := fun hheader =>
      hrow ⟨hbefore, hheader⟩
    simpa [dropHeader, hheader, mt h.isHeader_trim hheader] using hsame
  | cons first rest =>
    have hrest (rows : List (List Char)) :
        List.Forall₂ SameColumns (rows ++ AccelSim.trim line :: nonBlank after)
          (rows ++ AccelSim.trim line' :: nonBlank after) :=
      List.rel_append (SameColumns.forall₂_refl rows) hsame
    simp only [List.cons_append, dropHeader]
    split
    · exact hrest rest
    · exact hrest (first :: rest)

theorem Edit.dataRows {content content' : List Char} (h : Edit content content') :
    List.Forall₂ SameColumns (dataRows content) (dataRows content') := by
  have hsame {lines lines' : List (List Char)} (hlines : nonBlank lines = nonBlank lines') :
      List.Forall₂ SameColumns (dropHeader (nonBlank lines)) (dropHeader (nonBlank lines')) := by
    rw [hlines]
    exact SameColumns.forall₂_refl _
  rw [dataRows_eq, dataRows_eq]
  cases h with
  | @blankLine before after pad hpad hlines hlines' =>
    have hblank : trim pad = [] := by
      have htrim := Spacing.trim_stop (x := []) hpad.isBlank
      rwa [List.nil_append] at htrim
    rw [hlines, hlines']
    apply hsame
    rw [nonBlank_append, nonBlank_append, nonBlank_cons, if_pos hblank]
  | crlf h =>
    subst h
    exact hsame (nonBlank_crlf content).symm
  | @lineStart before after line pad hpad hlines hlines' =>
    have htrim : trim (pad ++ line) = trim line := Spacing.trim_start hpad.isBlank
    rw [hlines, hlines']
    apply hsame
    simp only [nonBlank_append, nonBlank_cons, htrim]
  | @lineEnd before after line pad hpad hlines hlines' =>
    have htrim : trim (line ++ pad) = trim line := Spacing.trim_stop hpad.isBlank
    rw [hlines, hlines']
    apply hsame
    simp only [nonBlank_append, nonBlank_cons, htrim]
  | beforeSeparator hpad hc hrow hlines hlines' =>
    rw [hlines, hlines']
    exact SpacedText.dataRows (.before hc hpad.isBlank) _ _ (trim_ne_nil hc _ _) hrow
  | afterSeparator hpad hc hrow hlines hlines' =>
    rw [hlines, hlines']
    exact SpacedText.dataRows (.after hc hpad.isBlank) _ _ (trim_ne_nil hc _ _) hrow

/-! ### The loader -/

theorem loadWorkloadCsv_of_edit (path : String) {content content' : List Char}
    (h : Edit content content') :
    (loadWorkloadCsv path (some content)).toOption =
      (loadWorkloadCsv path (some content')).toOption := by
  ext instructions
  simp only [Fallible.toOption_eq_some, loadWorkloadCsv_eq_ok]
  have hback : List.Forall₂ SameColumns (dataRows content') (dataRows content) :=
    (h.dataRows.imp fun _ _ hrow => hrow.symm).flip
  exact ⟨LoadedFrom.of_sameColumns h.dataRows, LoadedFrom.of_sameColumns hback⟩

/-- However the layout of a file is changed, the loader throws on both files, or it
    returns the same instructions for both. -/
theorem loadWorkloadCsv_layout (path : String) {content content' : List Char}
    (h : Relation.EqvGen Edit content content') :
    (loadWorkloadCsv path (some content)).toOption =
      (loadWorkloadCsv path (some content')).toOption := by
  induction h with
  | rel content content' h => exact loadWorkloadCsv_of_edit path h
  | refl content => rfl
  | symm content content' _ ih => exact ih.symm
  | trans content content' content'' _ _ ih ih' => exact ih.trans ih'

/-- `CRLF` line ends, and a space before the first comma. -/
theorem loadWorkloadCsv_layout_spacedComma :
    (loadWorkloadCsv "w.csv" (some "1,LOAD,3,64,0\n".toList)).toOption =
        (loadWorkloadCsv "w.csv" (some "1 ,LOAD,3,64,0\r\n".toList)).toOption ∧
      (loadWorkloadCsv "w.csv" (some "1 ,LOAD,3,64,0\r\n".toList)).toOption =
        some [{ id := 1, type := .load, executeLatency := 3, memoryBytes := 64 }] := by
  have hends : Edit "1,LOAD,3,64,0\n".toList "1,LOAD,3,64,0\r\n".toList := .crlf rfl
  have hcomma : Edit "1,LOAD,3,64,0\r\n".toList "1 ,LOAD,3,64,0\r\n".toList := by
    have hlines : "1,LOAD,3,64,0\r\n".toList.splitOn '\n' =
        [] ++ (['1'] ++ ',' :: "LOAD,3,64,0\r".toList) :: [[]] := by decide
    have hlines' : "1 ,LOAD,3,64,0\r\n".toList.splitOn '\n' =
        [] ++ (['1'] ++ [' '] ++ ',' :: "LOAD,3,64,0\r".toList) :: [[]] := by decide
    refine .beforeSeparator ?_ ?_ ?_ hlines hlines'
    · simp [Padding]
    · decide
    · rintro ⟨-, hheader⟩
      exact absurd hheader (by decide)
  refine ⟨loadWorkloadCsv_layout "w.csv" (.trans _ _ _ (.rel _ _ hends) (.rel _ _ hcomma)), ?_⟩
  decide

end AccelSim
