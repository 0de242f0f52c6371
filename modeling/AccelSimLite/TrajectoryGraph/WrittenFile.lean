import AccelSimLite.TrajectoryGraph.TrajectoryFile

/-!
# Writing a trajectory

A trajectory that is written row by row is read back, with `-1` for a row that leads
nowhere. With `CRLF` line ends the last column is no longer `-1` but is still read as a
number, which is the largest id.

## Main definitions

- `TrajectoryGraph.Prints` — numbers are printed so that they can be read
- `TrajectoryGraph.writeCsv` — the file of a list of rows
- `TrajectoryGraph.readBack` — what is read of a row

## Main results

- `parseTrajectoryCsv_writeCsv` — what is read back from a written file
-/

namespace AccelSim

open StorageDatapath (LineEnd numberText field dataLines)

namespace TrajectoryGraph

variable {R : Type} {distanceBetween : Point R → Point R → R}
  {stod : List Char → Except LoadError R} {print : R → List Char}

/-- `std::stod` reads a printed number, and the number does not break its row. -/
structure Prints (stod : List Char → Except LoadError R) (print : R → List Char) : Prop where
  reads : ∀ x, stod (print x) = .ok x
  comma : ∀ x, ',' ∉ print x
  newline : ∀ x, '\n' ∉ print x

/-! ### Writing a file -/

def nextText : Option UInt64 → List Char
  | some next => numberText next
  | none => "-1".toList

def writeRow (print : R → List Char) (row : TrajectoryRow R) : List Char :=
  numberText row.point.id ++ ',' :: (print row.point.x ++ ',' :: (print row.point.y ++
    ',' :: nextText row.next))

def header : List Char := "id,x,y,next_id".toList

def writeCsv (print : R → List Char) (eol : LineEnd) (rows : List (TrajectoryRow R)) :
    List Char :=
  (header :: rows.map (writeRow print)).flatMap fun line => line ++ eol.pad ++ ['\n']

/-- What is read of a row. -/
def readBack (eol : LineEnd) (row : TrajectoryRow R) : TrajectoryRow R :=
  match eol with
  | .lf => row
  | .crlf => { row with next := some (row.next.getD (UInt64.ofNat (2 ^ 64 - 1))) }

/-! ### Reading a row -/

/-- A number is not taken for the mark of a row that leads nowhere. -/
theorem numberText_append_ne (n : UInt64) (eol : LineEnd) :
    numberText n ++ eol.pad ≠ [] ∧ numberText n ++ eol.pad ≠ "-1".toList := by
  refine ⟨by simp [numberText, Nat.toDigits_ne_nil], fun h => ?_⟩
  have hminus : '-' ∈ numberText n ++ eol.pad := by
    rw [h]
    exact List.mem_cons_self
  rcases List.mem_append.mp hminus with hnumber | hpad
  · exact StorageDatapath.not_mem_numberText rfl n hnumber
  · cases eol <;> revert hpad <;> decide

theorem readId_numberText_append (n : UInt64) (eol : LineEnd) :
    readId (numberText n ++ eol.pad) = .ok n := by
  have hread : stoull (numberText n ++ eol.pad) = stoull (numberText n) := by
    cases eol with
    | lf => rw [LineEnd.pad, List.append_nil]
    | crlf =>
      refine stoull_append rfl fun c hc => ?_
      cases hc
      rfl
  have hnumber := StorageDatapath.readNumber_numberText n
  rw [readId, hread]
  rw [StorageDatapath.readNumber] at hnumber
  cases hstoull : stoull (numberText n) with
  | error e =>
    rw [hstoull] at hnumber
    cases hnumber
  | ok m =>
    rw [hstoull] at hnumber
    simpa [Except.map] using hnumber

theorem items_writeRow (hprints : Prints stod print) (row : TrajectoryRow R) (eol : LineEnd) :
    Getline.items ',' (writeRow print row ++ eol.pad) =
      [numberText row.point.id, print row.point.x, print row.point.y,
        nextText row.next ++ eol.pad] := by
  have hnumber (n : UInt64) : ',' ∉ numberText n := StorageDatapath.not_mem_numberText rfl n
  have hlast : ',' ∉ nextText row.next ++ eol.pad := by
    cases row.next with
    | none => cases eol <;> decide
    | some next =>
      rw [List.mem_append, not_or]
      exact ⟨hnumber next, by cases eol <;> decide⟩
  have hne : nextText row.next ++ eol.pad ≠ [] := by
    cases row.next with
    | none => cases eol <;> decide
    | some next => simp [nextText, numberText, Nat.toDigits_ne_nil]
  simp only [writeRow, List.append_assoc, List.cons_append]
  rw [Getline.items_append_cons (hnumber _), Getline.items_append_cons (hprints.comma _),
    Getline.items_append_cons (hprints.comma _), Getline.items_eq_singleton hne hlast]

theorem readRow_writeRow (hprints : Prints stod print) (eol : LineEnd) (row : TrajectoryRow R) :
    readRow stod (writeRow print row ++ eol.pad) = .ok (readBack eol row) := by
  have hid := readId_numberText_append row.point.id .lf
  rw [LineEnd.pad, List.append_nil] at hid
  obtain ⟨⟨id, x, y⟩, next⟩ := row
  simp only [readRow, field, items_writeRow hprints, List.getD_cons_zero, List.getD_cons_succ,
    hid, hprints.reads]
  cases next with
  | none => cases eol <;> rfl
  | some next =>
    simp only [bind, Except.bind]
    rw [nextText, if_pos (numberText_append_ne next eol), readId_numberText_append]
    cases eol <;> rfl

/-! ### Reading a file -/

theorem not_mem_writeRow (hprints : Prints stod print) (row : TrajectoryRow R) :
    '\n' ∉ writeRow print row := by
  have hnumber (n : UInt64) : '\n' ∉ numberText n := StorageDatapath.not_mem_numberText rfl n
  have hnext : '\n' ∉ nextText row.next := by
    cases row.next with
    | none => decide
    | some next => exact hnumber next
  simp [writeRow, hnumber, hprints.newline, hnext]

theorem dataLines_writeCsv (hprints : Prints stod print) (eol : LineEnd)
    (rows : List (TrajectoryRow R)) :
    dataLines (writeCsv print eol rows) = rows.map fun row => writeRow print row ++ eol.pad := by
  have hpad : '\n' ∉ eol.pad := by cases eol <;> decide
  have hlines : ∀ line ∈ (header :: rows.map (writeRow print)).map (· ++ eol.pad),
      '\n' ∉ line := by
    simp only [List.map_cons, List.map_map, List.forall_mem_cons, List.forall_mem_map,
      List.mem_append, not_or, Function.comp_apply]
    exact ⟨⟨by decide, hpad⟩, fun row _ => ⟨not_mem_writeRow hprints row, hpad⟩⟩
  have hwritten : writeCsv print eol rows =
      ((header :: rows.map (writeRow print)).map (· ++ eol.pad)).flatMap fun line =>
        line ++ ['\n'] := by
    rw [writeCsv, List.flatMap_map]
  have hne : ∀ line ∈ rows.map fun row => writeRow print row ++ eol.pad, line ≠ [] := by
    simp [writeRow]
  have hheader : isHeader (header ++ eol.pad) = true := by cases eol <;> decide
  have hkeep : header ++ eol.pad ≠ [] := by cases eol <;> decide
  rw [dataLines, hwritten, Getline.items_flatMap hlines, List.map_cons, List.map_map,
    List.filter_cons]
  rw [if_pos (decide_eq_true hkeep), dropHeader, if_pos hheader]
  exact List.filter_eq_self.mpr fun line hline => by simpa using hne line hline

/-- The rows of a written file are read as what stands in them. -/
theorem forall₂_readRow_iff (hprints : Prints stod print) (eol : LineEnd)
    {rows rows' : List (TrajectoryRow R)} :
    List.Forall₂ (fun line row => readRow stod line = .ok row)
        (dataLines (writeCsv print eol rows)) rows' ↔ rows' = rows.map (readBack eol) := by
  rw [dataLines_writeCsv hprints, List.forall₂_map_left_iff]
  simp only [readRow_writeRow hprints, Except.ok.injEq]
  constructor
  · intro h
    rw [List.forall₂_iff_get] at h
    refine List.ext_getElem (by rw [List.length_map, h.1]) fun i hi' hi => ?_
    rw [List.getElem_map]
    exact (h.2 i (by omega) hi').symm
  · rintro rfl
    rw [List.forall₂_map_right_iff]
    exact List.forall₂_same.mpr fun _ _ => rfl

theorem nextsKnown_readBack_iff (rows : List (TrajectoryRow R)) :
    NextsKnown (rows.map (readBack .crlf)) ↔ NextsKnown rows ∧
      ((∃ row ∈ rows, row.next = none) →
        ∃ row ∈ rows, row.point.id = UInt64.ofNat (2 ^ 64 - 1)) := by
  have hknown (next : UInt64) :
      (∃ other ∈ rows.map (readBack .crlf), other.point.id = next) ↔
        ∃ other ∈ rows, other.point.id = next := by
    simp [readBack]
  simp only [NextsKnown, hknown, List.forall_mem_map, readBack, Option.some.injEq, forall_eq']
  constructor
  · intro h
    refine ⟨fun row hrow next hnext => ?_, ?_⟩
    · have hother := h row hrow
      rwa [hnext] at hother
    · rintro ⟨row, hrow, hnone⟩
      have hother := h row hrow
      rwa [hnone] at hother
  · rintro ⟨hknown, hend⟩ row hrow
    cases hnext : row.next with
    | none => exact hend ⟨row, hrow, hnext⟩
    | some next => exact hknown row hrow next hnext

/-- **Reading a written trajectory.** With `LF` line ends the trajectory is the one that the
    rows describe. With `CRLF` line ends the file is refused as soon as a row leads nowhere,
    unless the largest id is that of a point, which such a row is then taken to lead to. -/
theorem parseTrajectoryCsv_writeCsv (distanceBetween : Point R → Point R → R)
    (hprints : Prints stod print) (path : String) (rows : List (TrajectoryRow R)) :
    (∀ parsed, parseTrajectoryCsv distanceBetween stod path (some (writeCsv print .lf rows)) =
        .ok parsed ↔ NextsKnown rows ∧ Describes distanceBetween rows parsed) ∧
      ((∃ parsed, parseTrajectoryCsv distanceBetween stod path
          (some (writeCsv print .crlf rows)) = .ok parsed) ↔
        NextsKnown rows ∧ ((∃ row ∈ rows, row.next = none) →
          ∃ row ∈ rows, row.point.id = UInt64.ofNat (2 ^ 64 - 1))) := by
  constructor
  · intro parsed
    have hself : rows.map (readBack .lf) = rows := List.map_id rows
    rw [parseTrajectoryCsv_eq_ok]
    simp only [forall₂_readRow_iff hprints, hself, exists_eq_left]
  · simp only [parseTrajectoryCsv_eq_ok, forall₂_readRow_iff hprints, exists_eq_left]
    rw [exists_and_left, nextsKnown_readBack_iff]
    refine and_iff_left_of_imp fun h => ?_
    exact exists_describes distanceBetween ((nextsKnown_readBack_iff rows).mpr h)

/-- A route of two points, of which the second leads nowhere. -/
def twoPoints : List (TrajectoryRow UInt64) := [⟨⟨1, 0, 0⟩, some 2⟩, ⟨⟨2, 3, 4⟩, none⟩]

theorem prints_numberText : Prints readId numberText where
  reads x := by
    have hread := readId_numberText_append x .lf
    rwa [LineEnd.pad, List.append_nil] at hread
  comma := StorageDatapath.not_mem_numberText rfl
  newline := StorageDatapath.not_mem_numberText rfl

/-- It is read with `LF` line ends and refused with `CRLF` line ends. -/
theorem parseTrajectoryCsv_writeCsv_twoPoints :
    (∃ parsed, parseTrajectoryCsv (fun a b => b.x - a.x) readId "route.csv"
        (some (writeCsv numberText .lf twoPoints)) = .ok parsed) ∧
      ¬∃ parsed, parseTrajectoryCsv (fun a b => b.x - a.x) readId "route.csv"
        (some (writeCsv numberText .crlf twoPoints)) = .ok parsed := by
  obtain ⟨hlf, hcrlf⟩ := parseTrajectoryCsv_writeCsv (fun a b : Point UInt64 => b.x - a.x)
    prints_numberText "route.csv" twoPoints
  have hknown : NextsKnown twoPoints := by simp [NextsKnown, twoPoints]
  constructor
  · obtain ⟨parsed, hdescribes⟩ := exists_describes (fun a b : Point UInt64 => b.x - a.x) hknown
    exact ⟨parsed, (hlf parsed).mpr ⟨hknown, hdescribes⟩⟩
  · rw [hcrlf]
    rintro ⟨-, hend⟩
    exact absurd (hend ⟨_, List.mem_cons_of_mem _ List.mem_cons_self, rfl⟩) (by decide)

end TrajectoryGraph

end AccelSim
