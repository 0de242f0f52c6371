import AccelSimLite.Lib.Getline
import AccelSimLite.Simulator.Defs
import Mathlib.Data.List.DropRight

/-!
# The workload file

A model of `load_workload_csv`: the lines of the file, the columns of a line, the
numbers and the dependencies in a column, and the checks that make it throw.

## Main definitions

- `trim`, `split`, `stoull`, `parseOpType` — the text functions
- `readRow` — the instruction of one line
- `loadLine`, `loadWorkloadCsv` — one iteration of the loop, and the whole function

## Design notes

A file is a list of characters, or `none` when it cannot be opened. The two
integer conversions of the standard library are one function, since
`unsigned long` has 64 bits.
-/

namespace AccelSim

/-! ### Text -/

/-- The characters that `trim` removes. -/
def isBlank (c : Char) : Bool := c = ' ' ∨ c = '\t' ∨ c = '\r' ∨ c = '\n'

def trim (value : List Char) : List Char :=
  (value.dropWhile isBlank).rdropWhile isBlank

def split (input : List Char) (delimiter : Char) : List (List Char) :=
  Getline.items delimiter input ++ if input.getLast? = some delimiter then [[]] else []

/-- `std::isspace` in the `"C"` locale. -/
def isSpace (c : Char) : Bool := c = ' ' ∨ (9 ≤ c.toNat ∧ c.toNat ≤ 13)

inductive LoadError
  | failedToOpen (path : String)
  | expectedColumns (line : List Char)
  | duplicateId (id : ℕ)
  | unsupportedOpType (value : List Char)
  | missingDependency (id : ℕ)
  /-- `std::invalid_argument` of the standard library. -/
  | invalidArgument
  /-- `std::out_of_range` of the standard library. -/
  | outOfRange
  deriving DecidableEq

/-- The text of the exception, where `load_workload_csv` chooses it. -/
def LoadError.what : LoadError → Option String
  | .failedToOpen path => some ("failed to open workload: " ++ path)
  | .expectedColumns line =>
    some ("expected at least 4 columns in line: " ++ String.ofList line)
  | .duplicateId id => some ("duplicate instruction id: " ++ toString id)
  | .unsupportedOpType value => some ("unsupported op_type: " ++ String.ofList value)
  | .missingDependency id => some ("missing dependency id: " ++ toString id)
  | .invalidArgument => none
  | .outOfRange => none

/-- The sign that a number may begin with, taken off. -/
def takeSign : List Char → Bool × List Char
  | '-' :: text => (true, text)
  | '+' :: text => (false, text)
  | text => (false, text)

/-- The value of decimal digits. -/
def decimal (digits : List Char) : ℕ :=
  digits.foldl (fun value c => 10 * value + (c.toNat - '0'.toNat)) 0

/-- `std::stoull`, and `std::stoul`: white space, a sign, and the longest run of
    digits. A negative number is its complement. -/
def stoull (text : List Char) : Except LoadError ℕ :=
  let signed := takeSign (text.dropWhile isSpace)
  let digits := signed.2.takeWhile Char.isDigit
  if digits = [] then .error .invalidArgument
  else if 2 ^ 64 ≤ decimal digits then .error .outOfRange
  else .ok (if signed.1 then (2 ^ 64 - decimal digits) % 2 ^ 64 else decimal digits)

def parseOpType (value : List Char) : Except LoadError OpType :=
  let value := value.map Char.toUpper
  if value = "COMPUTE".toList then .ok .compute
  else if value = "LOAD".toList then .ok .load
  else if value = "STORE".toList then .ok .store
  else .error (.unsupportedOpType value)

/-! ### Rows -/

/-- `static_cast<uint32_t>`. -/
def toUint32 (n : ℕ) : ℕ := n % 2 ^ 32

/-- The separator of a dependency column. -/
def separator (depsRaw : List Char) : Char := if '|' ∈ depsRaw then '|' else ';'

def readDeps (depsRaw : List Char) : Except LoadError (List ℕ) :=
  if depsRaw ≠ [] ∧ depsRaw ≠ ['0'] then
    (((split depsRaw (separator depsRaw)).map trim).filter
      fun dep => dep ≠ [] ∧ dep ≠ ['0']).mapM stoull
  else .ok []

/-- The instruction of a line, given the ids of the lines before it. -/
def readRow (ids : List ℕ) (line : List Char) : Except LoadError Instruction :=
  let cols := split line ','
  if cols.length < 4 then .error (.expectedColumns line)
  else do
    let id ← stoull (trim (cols.getD 0 []))
    if id ∈ ids then .error (.duplicateId id)
    else do
      let type ← parseOpType (trim (cols.getD 1 []))
      let executeLatency ← stoull (trim (cols.getD 2 []))
      let memoryBytes ← stoull (trim (cols.getD 3 []))
      let depsRaw := if 5 ≤ cols.length then trim (cols.getD 4 []) else []
      let deps ← readDeps depsRaw
      .ok
        { id := id
          type := type
          executeLatency :=
            if toUint32 executeLatency = 0 then 1 else toUint32 executeLatency
          memoryBytes := toUint32 memoryBytes
          deps := deps }

/-! ### The file -/

/-- The local variables of the loop over the lines. -/
structure LoadState where
  instructions : List Instruction := []
  ids : List ℕ := []
  firstLine : Bool := true
  deriving DecidableEq

/-- `line.rfind("id,", 0) == 0`. -/
def isHeader (line : List Char) : Bool := "id,".toList.isPrefixOf line

def LoadState.push (s : LoadState) (instruction : Instruction) : LoadState :=
  { instructions := s.instructions ++ [instruction]
    ids := s.ids ++ [instruction.id]
    firstLine := false }

/-- The part of the loop body that a data row reaches. -/
def loadRow (s : LoadState) (line : List Char) : Except LoadError LoadState := do
  let instruction ← readRow s.ids line
  .ok (s.push instruction)

def loadLine (s : LoadState) (line : List Char) : Except LoadError LoadState :=
  let line := trim line
  if line = [] then .ok s
  else if s.firstLine ∧ isHeader line then .ok { s with firstLine := false }
  else loadRow s line

/-- The second pass: every dependency has to be the id of some line. -/
def checkDeps (s : LoadState) : Except LoadError (List Instruction) :=
  match (s.instructions.flatMap Instruction.deps).find? (· ∉ s.ids) with
  | some dep => .error (.missingDependency dep)
  | none => .ok s.instructions

def loadWorkloadCsv (path : String) (file : Option (List Char)) :
    Except LoadError (List Instruction) :=
  match file with
  | none => .error (.failedToOpen path)
  | some content => do
    let s ← (Getline.items '\n' content).foldlM loadLine {}
    checkDeps s

example :
    loadWorkloadCsv "w.csv" (some ("id,op_type,latency,memory_bytes,deps\n1,COMPUTE,3,0,\r\n" ++
      "2,load,8,64,1\n\n 3,STORE,0,64, 1 | 2").toList) =
      .ok [{ id := 1, executeLatency := 3 },
        { id := 2, type := .load, executeLatency := 8, memoryBytes := 64, deps := [1] },
        { id := 3, type := .store, executeLatency := 1, memoryBytes := 64,
          deps := [1, 2] }] := by
  decide +kernel

end AccelSim
