import AccelSimLite.StorageDatapath.Defs
import AccelSimLite.WorkloadFile.Numbers
import AccelSimLite.WorkloadFile.Rows

/-!
# The workload file of the storage simulator

The reader compares its columns as they stand. A carriage return at the end of a line
is a part of the last column, which then is not `true`, and every word that is not
`read` or not `true` is taken for the other one.

## Main definitions

- `StorageDatapath.writeCsv` — the file of a list of requests
- `StorageDatapath.dataLines` — the lines that hold a request

## Main results

- `StorageDatapath.parseWorkloadCsv_eq` — the loop reads the data lines one by one
- `StorageDatapath.parseWorkloadCsv_writeCsv` — what is read back from a written file
- `StorageDatapath.readsFaithfully_iff` — when the requests are read back, and when a
  file with an unknown word is refused
-/

namespace AccelSim

namespace StorageDatapath

/-! ### Writing a file -/

inductive LineEnd
  | lf
  | crlf
  deriving DecidableEq

/-- What stands before the `LF` that ends a line. -/
def LineEnd.pad : LineEnd → List Char
  | .lf => []
  | .crlf => ['\r']

def Operation.word : Operation → List Char
  | .read => "read".toList
  | .write => "write".toList

def cacheHitWord (cacheHit : Bool) : List Char :=
  if cacheHit then "true".toList else "false".toList

def numberText (n : UInt64) : List Char := Nat.toDigits 10 n.toNat

def writeRow (request : Request) : List Char :=
  numberText request.id ++ ',' :: (request.operation.word ++ ',' :: (numberText request.block ++
    ',' :: (numberText request.sizeBytes ++ ',' :: cacheHitWord request.cacheHit)))

def header : List Char := "id,operation,block,size_bytes,cache_hit".toList

def writeCsv (eol : LineEnd) (requests : List Request) : List Char :=
  (header :: requests.map writeRow).flatMap fun line => line ++ eol.pad ++ ['\n']

/-! ### The loop -/

/-- The lines of the file that hold a request. -/
def dataLines (content : List Char) : List (List Char) :=
  dropHeader ((Getline.items '\n' content).filter (· ≠ []))

theorem parseLine_of_first {s : ParseState} {line : List Char} (hne : line ≠ [])
    (hrow : s.first = false ∨ isHeader line = false) :
    parseLine s line = (parseRow line >>= fun request =>
      .ok { requests := s.requests ++ [request], first := false }) := by
  have hskip : ¬(s.first = true ∧ isHeader line = true) := by
    rcases hrow with hfirst | hheader
    · simp [hfirst]
    · simp [hheader]
  rw [parseLine, if_neg hne, if_neg hskip]

/-- After the first line the loop reads every line that is not empty. -/
theorem foldlM_parseLine (lines : List (List Char)) {s : ParseState} (hs : s.first = false) :
    (lines.foldlM parseLine s >>= fun s => .ok s.requests) =
      ((lines.filter (· ≠ [])).mapM parseRow >>= fun new => .ok (s.requests ++ new)) := by
  induction lines generalizing s with
  | nil => simp [bind, Except.bind, pure, Except.pure]
  | cons line lines ih =>
    rw [List.foldlM_cons, List.filter_cons]
    by_cases hblank : line = []
    · have hskip : parseLine s line = .ok s := if_pos hblank
      rw [hskip, if_neg (by simpa using hblank)]
      exact ih hs
    · rw [parseLine_of_first hblank (.inl hs), if_pos (by simpa using hblank), List.mapM_cons]
      cases hrow : parseRow line with
      | error e => rfl
      | ok request =>
        have hrest := ih (s := { requests := s.requests ++ [request], first := false }) rfl
        refine hrest.trans ?_
        simp only [List.append_assoc, List.singleton_append]
        cases (lines.filter (· ≠ [])).mapM parseRow with
        | error e => rfl
        | ok new => rfl

/-- The loop reads the data lines one by one. -/
theorem parseWorkloadCsv_eq (path : String) (content : List Char) :
    parseWorkloadCsv path (some content) = (dataLines content).mapM parseRow := by
  rw [parseWorkloadCsv, dataLines]
  induction Getline.items '\n' content with
  | nil => rfl
  | cons line lines ih =>
    rw [List.foldlM_cons, List.filter_cons]
    by_cases hblank : line = []
    · have hskip : parseLine {} line = .ok {} := if_pos hblank
      rw [hskip, if_neg (by simpa using hblank)]
      exact ih
    · rw [if_pos (by simpa using hblank), dropHeader]
      by_cases hheader : isHeader line = true
      · have hskip : parseLine {} line = .ok { first := false } := by
          simp [parseLine, hblank, hheader]
        rw [hskip, if_pos hheader]
        refine (foldlM_parseLine lines rfl).trans ?_
        cases (lines.filter (· ≠ [])).mapM parseRow with
        | error e => rfl
        | ok new => rfl
      · rw [parseLine_of_first hblank (.inr (by simpa using hheader)), if_neg hheader,
          List.mapM_cons]
        cases hrow : parseRow line with
        | error e => rfl
        | ok request =>
          refine (foldlM_parseLine (s := { requests := [request], first := false }) lines
            rfl).trans ?_
          cases (lines.filter (· ≠ [])).mapM parseRow with
          | error e => rfl
          | ok new => rfl

/-! ### Reading a written file -/

theorem decimal_toDigits (n : ℕ) : decimal (Nat.toDigits 10 n) = n :=
  Nat.ofDigitChars_ten_toDigits

theorem isDigit_of_mem_numberText {n : UInt64} {c : Char} (h : c ∈ numberText n) :
    c.isDigit = true :=
  Nat.isDigit_of_mem_toDigits (by decide) (by decide) h

theorem not_mem_numberText {c : Char} (hc : c.isDigit = false) (n : UInt64) :
    c ∉ numberText n := by
  intro h
  rw [isDigit_of_mem_numberText h] at hc
  cases hc

theorem readNumber_numberText (n : UInt64) : readNumber (numberText n) = .ok n := by
  have hread : stoull (numberText n) = .ok n.toNat := by
    have hdecimal := decimal_toDigits n.toNat
    rw [numberText, stoull_of_digits Nat.toDigits_ne_nil (fun _ => isDigit_of_mem_numberText),
      hdecimal]
    rw [hdecimal]
    exact n.toNat_lt
  rw [readNumber, hread]
  simp

theorem Operation.not_mem_word (operation : Operation) : ',' ∉ operation.word := by
  cases operation <;> decide

/-- The columns of a written row, with what is left of its line end. -/
theorem items_writeRow (request : Request) (eol : LineEnd) :
    Getline.items ',' (writeRow request ++ eol.pad) =
      [numberText request.id, request.operation.word, numberText request.block,
        numberText request.sizeBytes, cacheHitWord request.cacheHit ++ eol.pad] := by
  have hlast : ',' ∉ cacheHitWord request.cacheHit ++ eol.pad := by
    cases request.cacheHit <;> cases eol <;> decide
  have hne : cacheHitWord request.cacheHit ++ eol.pad ≠ [] := by
    cases request.cacheHit <;> cases eol <;> decide
  have hnumber (n : UInt64) : ',' ∉ numberText n := not_mem_numberText rfl n
  simp only [writeRow, List.append_assoc, List.cons_append]
  rw [Getline.items_append_cons (hnumber _),
    Getline.items_append_cons request.operation.not_mem_word,
    Getline.items_append_cons (hnumber _), Getline.items_append_cons (hnumber _),
    Getline.items_eq_singleton hne hlast]

/-- What a reader that compares its columns as they stand makes of a cache hit. -/
def readBack (eol : LineEnd) (request : Request) : Request :=
  match eol with
  | .lf => request
  | .crlf => { request with cacheHit := false }

theorem parseRow_writeRow (eol : LineEnd) (request : Request) :
    parseRow (writeRow request ++ eol.pad) = .ok (readBack eol request) := by
  obtain ⟨id, operation, block, sizeBytes, cacheHit⟩ := request
  simp only [parseRow, field, items_writeRow, List.getD_cons_zero, List.getD_cons_succ,
    readNumber_numberText]
  -- what is left are the comparisons of the two words, the last with its line end
  cases eol <;> cases operation <;> cases cacheHit <;> rfl

theorem not_mem_writeRow (request : Request) : '\n' ∉ writeRow request := by
  have hnumber (n : UInt64) : '\n' ∉ numberText n := not_mem_numberText rfl n
  have hoperation : '\n' ∉ request.operation.word := by
    cases request.operation <;> decide
  have hcacheHit : '\n' ∉ cacheHitWord request.cacheHit := by
    cases request.cacheHit <;> decide
  simp [writeRow, hnumber, hoperation, hcacheHit]

theorem dataLines_writeCsv (eol : LineEnd) (requests : List Request) :
    dataLines (writeCsv eol requests) =
      requests.map fun request => writeRow request ++ eol.pad := by
  have hpad : '\n' ∉ eol.pad := by cases eol <;> decide
  have hlines : ∀ line ∈ (header :: requests.map writeRow).map (· ++ eol.pad), '\n' ∉ line := by
    simp only [List.map_cons, List.map_map, List.forall_mem_cons, List.forall_mem_map,
      List.mem_append, not_or, Function.comp_apply]
    exact ⟨⟨by decide, hpad⟩, fun request _ => ⟨not_mem_writeRow request, hpad⟩⟩
  have hwritten : writeCsv eol requests =
      ((header :: requests.map writeRow).map (· ++ eol.pad)).flatMap fun line =>
        line ++ ['\n'] := by
    rw [writeCsv, List.flatMap_map]
  have hne : ∀ line ∈ requests.map fun request => writeRow request ++ eol.pad, line ≠ [] := by
    simp [writeRow]
  have hheader : isHeader (header ++ eol.pad) = true := by cases eol <;> decide
  have hkeep : header ++ eol.pad ≠ [] := by cases eol <;> decide
  rw [dataLines, hwritten, Getline.items_flatMap hlines, List.map_cons, List.map_map,
    List.filter_cons]
  rw [if_pos (decide_eq_true hkeep), dropHeader, if_pos hheader]
  exact List.filter_eq_self.mpr fun line hline => by simpa using hne line hline

/-- What is read back from a written file. -/
theorem parseWorkloadCsv_writeCsv (path : String) (eol : LineEnd) (requests : List Request) :
    parseWorkloadCsv path (some (writeCsv eol requests)) = .ok (requests.map (readBack eol)) := by
  rw [parseWorkloadCsv_eq, dataLines_writeCsv]
  refine Fallible.mapM_eq_ok.mpr ?_
  rw [List.forall₂_map_left_iff, List.forall₂_map_right_iff]
  exact List.forall₂_same.mpr fun request _ => parseRow_writeRow eol request

theorem map_readBack_eq_iff (eol : LineEnd) (requests : List Request) :
    requests.map (readBack eol) = requests ↔
      eol = .lf ∨ ∀ request ∈ requests, request.cacheHit = false := by
  cases eol with
  | lf => exact iff_of_true (List.map_id requests) (.inl rfl)
  | crlf =>
    have hself (request : Request) :
        readBack .crlf request = request ↔ request.cacheHit = false := by
      obtain ⟨id, operation, block, sizeBytes, cacheHit⟩ := request
      simp [readBack, eq_comm]
    rw [← List.map_id requests, List.map_map, List.map_inj_left]
    simp [hself]

/-! ### Refusing a file -/

/-- A word that is none of those that the column may hold. -/
def UnknownWord (line : List Char) : Prop :=
  (∀ operation : Operation, field line 1 ≠ operation.word) ∨
    ∀ cacheHit, field line 4 ≠ cacheHitWord cacheHit

/-- A column that `std::stoull` throws on. -/
def RefusedNumber (line : List Char) : Prop :=
  ∃ i ∈ [0, 2, 3], ∀ n, stoull (field line i) ≠ .ok n

def RefusesUnknownWords (path : String) (content : List Char) : Prop :=
  (∃ line ∈ dataLines content, UnknownWord line) →
    ∃ error, parseWorkloadCsv path (some content) = .error error

theorem exists_readNumber_eq_ok {text : List Char} :
    (∃ n, readNumber text = .ok n) ↔ ∃ n, stoull text = .ok n := by
  rw [readNumber]
  cases stoull text with
  | error e => simp
  | ok n => simp

/-- The words of a row do not matter. -/
theorem exists_parseRow_eq_ok {line : List Char} :
    (∃ request, parseRow line = .ok request) ↔ ¬RefusedNumber line := by
  have hnumbers : ¬RefusedNumber line ↔
      ∀ i ∈ [0, 2, 3], ∃ n, readNumber (field line i) = .ok n := by
    simp only [RefusedNumber, exists_readNumber_eq_ok]
    push Not
    rfl
  rw [hnumbers]
  constructor
  · rintro ⟨request, hrow⟩
    obtain ⟨id, hid, hrow⟩ := Fallible.bind_eq_ok.mp hrow
    obtain ⟨block, hblock, hrow⟩ := Fallible.bind_eq_ok.mp hrow
    obtain ⟨sizeBytes, hsizeBytes, -⟩ := Fallible.bind_eq_ok.mp hrow
    simpa using ⟨⟨id, hid⟩, ⟨block, hblock⟩, ⟨sizeBytes, hsizeBytes⟩⟩
  · intro h
    obtain ⟨id, hid⟩ := h 0 (by simp)
    obtain ⟨block, hblock⟩ := h 2 (by simp)
    obtain ⟨sizeBytes, hsizeBytes⟩ := h 3 (by simp)
    simp only [parseRow, hid, hblock, hsizeBytes]
    exact ⟨_, rfl⟩

theorem parseWorkloadCsv_refuses_iff (path : String) (content : List Char) :
    (∃ error, parseWorkloadCsv path (some content) = .error error) ↔
      ∃ line ∈ dataLines content, RefusedNumber line := by
  have haccepts : (∃ requests, parseWorkloadCsv path (some content) = .ok requests) ↔
      ∀ line ∈ dataLines content, ¬RefusedNumber line := by
    rw [parseWorkloadCsv_eq, Fallible.exists_mapM_eq_ok]
    simp only [exists_parseRow_eq_ok]
  have hor : (∃ error, parseWorkloadCsv path (some content) = .error error) ↔
      ¬∃ requests, parseWorkloadCsv path (some content) = .ok requests := by
    cases parseWorkloadCsv path (some content) with
    | error e => simp
    | ok requests => simp
  rw [hor, haccepts]
  push Not
  rfl

/-- Written requests are read back exactly from a file with `LF` line ends, and from
    one without a cache hit; and a file with an unknown word is refused exactly when
    there is a number in it that cannot be read. -/
theorem readsFaithfully_iff (path : String) (eol : LineEnd) (requests : List Request)
    (content : List Char) :
    (parseWorkloadCsv path (some (writeCsv eol requests)) = .ok requests ↔
        eol = .lf ∨ ∀ request ∈ requests, request.cacheHit = false) ∧
      (RefusesUnknownWords path content ↔
        ((∃ line ∈ dataLines content, UnknownWord line) →
          ∃ line ∈ dataLines content, RefusedNumber line)) := by
  constructor
  · rw [parseWorkloadCsv_writeCsv, Except.ok.injEq, map_readBack_eq_iff]
  · rw [RefusesUnknownWords, parseWorkloadCsv_refuses_iff]

/-- A cache hit is lost in a file with `CRLF` line ends, and a misspelt word is taken
    for a write that misses. -/
theorem readsFaithfully_crlf :
    parseWorkloadCsv "w.csv" (some (writeCsv .crlf [⟨1, .read, 10, 4096, true⟩])) =
        .ok [⟨1, .read, 10, 4096, false⟩] ∧
      parseWorkloadCsv "w.csv" (some "1,Read,10,4096,yes\n".toList) =
        .ok [⟨1, .write, 10, 4096, false⟩] ∧
      ¬RefusesUnknownWords "w.csv" "1,Read,10,4096,yes\n".toList := by
  have hload : parseWorkloadCsv "w.csv" (some "1,Read,10,4096,yes\n".toList) =
      .ok [⟨1, .write, 10, 4096, false⟩] := by decide
  refine ⟨by decide, hload, ?_⟩
  intro hrefuses
  have hlines : dataLines "1,Read,10,4096,yes\n".toList = ["1,Read,10,4096,yes".toList] := by
    decide
  obtain ⟨error, herror⟩ := hrefuses
    ⟨"1,Read,10,4096,yes".toList, by rw [hlines]; exact List.mem_cons_self,
      .inr (by decide)⟩
  rw [hload] at herror
  cases herror

end StorageDatapath

end AccelSim
