import AccelSimLite.WorkloadFile.Acceptance

/-!
# The numbers of a workload file

The loader hands its numeric columns to the standard library, which reads a number
off the beginning of a text, and then narrows what it gets to the width of the field.
A sign, a space of the less usual kinds, anything after the digits and a number that
is too wide for its field all go unnoticed.

## Main definitions

- `PlainRow` — a row whose numbers are written in digits and fit their fields
- `FaithfulNumbers` — the fields are what the columns write, and other files are refused

## Main results

- `faithfulNumbers_iff` — the files on which this holds
-/

namespace AccelSim

/-- Decimal digits, of a number of so many bits. -/
structure Plain (width : ℕ) (text : List Char) : Prop where
  nonempty : text ≠ []
  digits : ∀ c ∈ text, c.isDigit = true
  lt : decimal text < 2 ^ width

structure PlainRow (row : List Char) : Prop where
  id : Plain 64 (column row 0)
  executeLatency : Plain 32 (column row 2)
  memoryBytes : Plain 32 (column row 3)

/-- The fields are the numbers that the columns write. -/
structure HoldsNumbers (row : List Char) (instruction : Instruction) : Prop where
  id : instruction.id = decimal (column row 0)
  memoryBytes : instruction.memoryBytes = decimal (column row 3)
  executeLatency : instruction.executeLatency =
    if decimal (column row 2) = 0 then 1 else decimal (column row 2)

structure FaithfulNumbers (path : String) (content : List Char) : Prop where
  holds : ∀ instructions, loadWorkloadCsv path (some content) = .ok instructions →
    List.Forall₂ HoldsNumbers (dataRows content) instructions
  refused : (∃ row ∈ dataRows content, ¬PlainRow row) →
    ∃ error, loadWorkloadCsv path (some content) = .error error

/-- Nothing but digits in the three columns, and no number that narrowing changes. -/
structure NarrowDigits (row : List Char) : Prop where
  digits : ∀ i ∈ [0, 2, 3], ∀ c ∈ column row i, c.isDigit = true
  executeLatency : decimal (column row 2) < 2 ^ 32
  memoryBytes : decimal (column row 3) < 2 ^ 32

theorem Plain.mono {width width' : ℕ} {text : List Char} (h : Plain width text)
    (hle : width ≤ width') : Plain width' text :=
  ⟨h.nonempty, h.digits, h.lt.trans_le (Nat.pow_le_pow_right (by decide) hle)⟩

theorem Plain.stoull_eq {text : List Char} (h : Plain 64 text) :
    stoull text = .ok (decimal text) :=
  stoull_of_digits h.nonempty h.digits h.lt

/-- Of the texts of digits, the standard library refuses the empty one and those
    whose number has more than 64 bits. -/
theorem plain_of_digits {text : List Char} {n : ℕ} (h : stoull text = .ok n)
    (hdigits : ∀ c ∈ text, c.isDigit = true) : Plain 64 text := by
  rw [stoull_eq_of_digits hdigits] at h
  split at h
  · cases h
  · rename_i hne
    split at h
    · cases h
    · rename_i hlt
      exact ⟨hne, hdigits, not_le.mp hlt⟩

theorem plainRow_iff {row : List Char}
    (h : ∀ i ∈ [0, 2, 3], ∃ n, stoull (column row i) = .ok n) :
    PlainRow row ↔ NarrowDigits row := by
  constructor
  · intro hplain
    refine ⟨?_, hplain.executeLatency.lt, hplain.memoryBytes.lt⟩
    simpa using ⟨hplain.id.digits, hplain.executeLatency.digits, hplain.memoryBytes.digits⟩
  · intro hnarrow
    have hplain : ∀ i ∈ [0, 2, 3], Plain 64 (column row i) := by
      intro i hi
      obtain ⟨n, hn⟩ := h i hi
      exact plain_of_digits hn (hnarrow.digits i hi)
    have hlatency := hplain 2 (by simp)
    have hbytes := hplain 3 (by simp)
    exact ⟨hplain 0 (by simp),
      ⟨hlatency.nonempty, hlatency.digits, hnarrow.executeLatency⟩,
      ⟨hbytes.nonempty, hbytes.digits, hnarrow.memoryBytes⟩⟩

theorem toUint32_of_lt {n : ℕ} (h : n < 2 ^ 32) : toUint32 n = n := Nat.mod_eq_of_lt h

/-- Plain columns are read as they are written. -/
theorem RowReads.holdsNumbers {row : List Char} {instruction : Instruction}
    (h : RowReads row instruction) (hplain : PlainRow row) : HoldsNumbers row instruction := by
  have hid := h.id
  obtain ⟨latency, hlatency, hexecute⟩ := h.executeLatency
  obtain ⟨bytes, hbytes, hmemory⟩ := h.memoryBytes
  rw [hplain.id.stoull_eq, Except.ok.injEq] at hid
  rw [(hplain.executeLatency.mono (by decide)).stoull_eq, Except.ok.injEq] at hlatency
  rw [(hplain.memoryBytes.mono (by decide)).stoull_eq, Except.ok.injEq] at hbytes
  subst hlatency hbytes
  rw [toUint32_of_lt hplain.executeLatency.lt] at hexecute
  rw [toUint32_of_lt hplain.memoryBytes.lt] at hmemory
  exact ⟨hid.symm, hmemory, hexecute⟩

theorem LoadedFrom.holdsNumbers {rows : List (List Char)} {instructions : List Instruction}
    (h : LoadedFrom rows instructions) (hplain : ∀ row ∈ rows, PlainRow row) :
    List.Forall₂ HoldsNumbers rows instructions :=
  Fallible.forall₂_imp h.reads fun row hmem _ hread => hread.holdsNumbers (hplain row hmem)

/-- The numbers are faithful exactly in the files that are refused for some other
    reason, and in those that have only digits in the three columns and no latency
    and no size of more than 32 bits. -/
theorem faithfulNumbers_iff (path : String) (content : List Char) :
    FaithfulNumbers path content ↔
      (Acceptable (dataRows content) → ∀ row ∈ dataRows content, NarrowDigits row) := by
  constructor
  · intro hfaithful hrows row hmem
    rw [← plainRow_iff (hrows.numbers row hmem)]
    -- an acceptable file is loaded, whatever else its numeric columns hold
    by_contra hplain
    obtain ⟨error, herror⟩ := hfaithful.refused ⟨row, hmem, hplain⟩
    obtain ⟨instructions, hload⟩ := (exists_loadWorkloadCsv_eq_ok path).mpr hrows
    rw [herror] at hload
    cases hload
  · intro hnarrow
    have hplain (hrows : Acceptable (dataRows content)) :
        ∀ row ∈ dataRows content, PlainRow row := by
      intro row hmem
      exact (plainRow_iff (hrows.numbers row hmem)).mpr (hnarrow hrows row hmem)
    constructor
    · intro instructions hload
      exact (loadWorkloadCsv_eq_ok.mp hload).holdsNumbers
        (hplain ((exists_loadWorkloadCsv_eq_ok path).mp ⟨instructions, hload⟩))
    · rintro ⟨row, hmem, hrow⟩
      cases hload : loadWorkloadCsv path (some content) with
      | error e => exact ⟨e, rfl⟩
      | ok instructions =>
        have hrows := (exists_loadWorkloadCsv_eq_ok path).mp ⟨instructions, hload⟩
        exact absurd (hplain hrows row hmem) hrow

/-- A workload with a negative id, text after a size, and a latency of 33 bits. -/
def looseNumbers : List Char :=
  "id,op_type,latency,memory_bytes,deps\n-1,LOAD,4294967297,64kB,\n".toList

/-- The latency 4294967297 is loaded as 1. -/
theorem faithfulNumbers_looseNumbers :
    loadWorkloadCsv "loose.csv" (some looseNumbers) =
        .ok [{ id := 18446744073709551615, type := .load, executeLatency := 1,
               memoryBytes := 64 }] ∧
      ¬FaithfulNumbers "loose.csv" looseNumbers := by
  have hload : loadWorkloadCsv "loose.csv" (some looseNumbers) =
      .ok [{ id := 18446744073709551615, type := .load, executeLatency := 1,
             memoryBytes := 64 }] := by decide +kernel
  refine ⟨hload, ?_⟩
  intro hfaithful
  have hrows : dataRows looseNumbers = ["-1,LOAD,4294967297,64kB,".toList] := by decide
  have hholds := hfaithful.holds _ hload
  rw [hrows] at hholds
  rcases hholds with _ | ⟨hrow, -⟩
  exact absurd hrow.executeLatency (by decide)

end AccelSim
