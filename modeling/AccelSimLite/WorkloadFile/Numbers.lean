import AccelSimLite.WorkloadFile.Defs

/-!
# Numbers in a text

A number is read off the beginning of a text: white space before it, and what
follows its last digit, do not change what is read.

## Main results

- `stoull_of_digits` — plain digits are read as what they write
- `stoull_trim` — trimming does not change the number
- `stoull_of_splitOn` — neither does cutting the text off at a separator
-/

namespace AccelSim

theorem isSpace_of_isBlank {c : Char} (h : isBlank c = true) : isSpace c = true := by
  simp only [isBlank, decide_eq_true_eq] at h
  rcases h with rfl | rfl | rfl | rfl <;> decide

theorem isDigit_of_isSpace {c : Char} (h : isSpace c = true) : c.isDigit = false := by
  simp only [isSpace, decide_eq_true_eq] at h
  rcases h with rfl | ⟨-, hle⟩
  · decide
  · have hlt : ¬48 ≤ c.toNat := by omega
    simp [Char.isDigit, UInt32.le_iff_toNat_le, hlt]

theorem takeSign_of_isDigit {text : List Char} (h : ∀ c ∈ text.head?, c.isDigit = true) :
    takeSign text = (false, text) := by
  cases text with
  | nil => rfl
  | cons c rest =>
    have hc := h c rfl
    have hminus : c ≠ '-' := by
      rintro rfl
      cases hc
    have hplus : c ≠ '+' := by
      rintro rfl
      cases hc
    simp [takeSign, hminus, hplus]

theorem dropWhile_isSpace_of_digits {digits : List Char}
    (hdigits : ∀ c ∈ digits, c.isDigit = true) : digits.dropWhile isSpace = digits := by
  cases digits with
  | nil => rfl
  | cons c rest =>
    apply List.dropWhile_cons_of_neg
    intro hc
    have hdigit := hdigits c List.mem_cons_self
    rw [isDigit_of_isSpace hc] at hdigit
    cases hdigit

/-- What becomes of digits. -/
theorem stoull_eq_of_digits {digits : List Char} (hdigits : ∀ c ∈ digits, c.isDigit = true) :
    stoull digits =
      if digits = [] then .error .invalidArgument
      else if 2 ^ 64 ≤ decimal digits then .error .outOfRange
      else .ok (decimal digits) := by
  have hsign := takeSign_of_isDigit fun c hc => hdigits c (List.mem_of_mem_head? hc)
  have hall := List.takeWhile_eq_self_iff.mpr hdigits
  simp only [stoull, dropWhile_isSpace_of_digits hdigits, hsign, hall]
  rfl

/-- Plain digits are read as the number that they write. -/
theorem stoull_of_digits {digits : List Char} (hne : digits ≠ [])
    (hdigits : ∀ c ∈ digits, c.isDigit = true) (hlt : decimal digits < 2 ^ 64) :
    stoull digits = .ok (decimal digits) := by
  rw [stoull_eq_of_digits hdigits, if_neg hne, if_neg (not_le.mpr hlt)]

theorem stoull_eq_of_dropWhile {text text' : List Char}
    (h : text.dropWhile isSpace = text'.dropWhile isSpace) : stoull text = stoull text' := by
  simp only [stoull, h]

theorem stoull_eq_error_of_forall_isSpace {text : List Char}
    (h : ∀ c ∈ text, isSpace c = true) : stoull text = .error .invalidArgument := by
  have hnil : text.dropWhile isSpace = List.dropWhile isSpace [] :=
    List.dropWhile_eq_nil_iff.mpr h
  rw [stoull_eq_of_dropWhile hnil]
  rfl

theorem takeSign_append {text text' : List Char} (h : text ≠ []) :
    takeSign (text ++ text') = ((takeSign text).1, (takeSign text).2 ++ text') := by
  obtain ⟨c, rest, rfl⟩ := List.exists_cons_of_ne_nil h
  by_cases hminus : c = '-'
  · subst hminus
    rfl
  · by_cases hplus : c = '+'
    · subst hplus
      rfl
    · simp [takeSign, hminus, hplus]

/-- What follows a number is not read, when it is not itself a number and does not
    begin with a digit. -/
theorem stoull_append {text text' : List Char}
    (hinvalid : stoull text' = .error .invalidArgument)
    (hhead : ∀ c ∈ text'.head?, c.isDigit = false) :
    stoull (text ++ text') = stoull text := by
  by_cases hblank : text.dropWhile isSpace = []
  · have hall := List.dropWhile_eq_nil_iff.mp hblank
    rw [stoull_eq_error_of_forall_isSpace hall, ← hinvalid]
    exact stoull_eq_of_dropWhile (List.dropWhile_append_of_pos hall)
  · have hdrop : (text ++ text').dropWhile isSpace = text.dropWhile isSpace ++ text' := by
      rw [List.dropWhile_append, if_neg (by simpa using hblank)]
    have hstop : text'.takeWhile Char.isDigit = [] := by
      cases text' with
      | nil => rfl
      | cons c rest => simp [hhead c rfl]
    have hdigits (digits : List Char) :
        (digits ++ text').takeWhile Char.isDigit = digits.takeWhile Char.isDigit := by
      rw [List.takeWhile_append, hstop, List.append_nil]
      split
      · rename_i hlength
        exact ((List.takeWhile_prefix _).eq_of_length hlength).symm
      · rfl
    simp only [stoull, hdrop, takeSign_append hblank, hdigits]

theorem stoull_dropWhile_isBlank (text : List Char) :
    stoull (text.dropWhile isBlank) = stoull text := by
  induction text with
  | nil => rfl
  | cons c rest ih =>
    by_cases hc : isBlank c = true
    · rw [List.dropWhile_cons_of_pos hc, ih]
      exact stoull_eq_of_dropWhile
        (List.dropWhile_cons_of_pos (isSpace_of_isBlank hc)).symm
    · rw [List.dropWhile_cons_of_neg hc]

theorem stoull_rdropWhile_isBlank (text : List Char) :
    stoull (text.rdropWhile isBlank) = stoull text := by
  have hspace : ∀ c ∈ text.rtakeWhile isBlank, isSpace c = true := by
    intro c hc
    exact isSpace_of_isBlank (List.mem_rtakeWhile_imp hc)
  have happend : stoull (text.rdropWhile isBlank ++ text.rtakeWhile isBlank) =
      stoull (text.rdropWhile isBlank) := by
    apply stoull_append (stoull_eq_error_of_forall_isSpace hspace)
    intro c hc
    exact isDigit_of_isSpace (hspace c (List.mem_of_mem_head? hc))
  rw [List.rdropWhile_append_rtakeWhile] at happend
  exact happend.symm

theorem stoull_trim (text : List Char) : stoull (trim text) = stoull text := by
  rw [trim, stoull_rdropWhile_isBlank, stoull_dropWhile_isBlank]

/-- The first piece of a text reads as the whole text does. -/
theorem stoull_of_splitOn {text piece : List Char} {pieces : List (List Char)}
    (h : text.splitOn ';' = piece :: pieces) : stoull piece = stoull text := by
  by_cases hmem : ';' ∈ text
  · obtain ⟨before, after, rfl, hbefore⟩ := List.eq_append_cons_of_mem hmem
    rw [List.splitOn_append_cons_self_of_not_mem hbefore] at h
    cases h
    exact (stoull_append rfl (by simp)).symm
  · rw [List.splitOn_eq_singleton hmem] at h
    cases h
    rfl

end AccelSim
