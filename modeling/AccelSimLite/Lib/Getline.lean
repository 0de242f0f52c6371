import Mathlib.Data.List.Basic
import Mathlib.Data.List.TakeWhile

/-!
# Reading a stream item by item

What a loop `while (getline(in, item, delimiter))` reads from a stream of symbols:
the items between delimiters, where a delimiter at the very end of the stream ends
the last item and starts no further one.

## Main definitions

- `Getline.next` — one call: the item, and what is left of the stream
- `Getline.items` — all the items that the loop reads

## Main results

- `Getline.items_append_eq_splitOn` — the items of a stream, and splitting it
- `Getline.items_flatMap` — a stream that was written item by item
- `Getline.splitOn_eq_iff` — splitting a stream is the inverse of joining its pieces
-/

namespace Getline

variable {α : Type*} [DecidableEq α] (delimiter : α)

/-- The item up to the next delimiter and the stream after it; `none` when the
    stream is at its end before the call. -/
def next (input : List α) : Option (List α × List α) :=
  if input = [] then none
  else some (input.takeWhile (· ≠ delimiter), (input.dropWhile (· ≠ delimiter)).tail)

/-- The items that the loop reads, by recursion on the stream. -/
def items : List α → List (List α)
  | [] => []
  | c :: rest =>
    if c = delimiter then [] :: items rest
    else
      match items rest with
      | [] => [[c]]
      | item :: more => (c :: item) :: more

variable {delimiter}

/-- The loop: one call, and again on what it leaves. -/
theorem items_eq (input : List α) :
    items delimiter input =
      match next delimiter input with
      | none => []
      | some (item, rest) => item :: items delimiter rest := by
  induction input with
  | nil => rfl
  | cons c rest ih =>
    by_cases hc : c = delimiter
    · subst hc
      simp [items, next]
    · rw [items, if_neg hc, ih]
      cases rest with
      | nil => simp [next, items, hc]
      | cons d rest => simp [next, hc]

/-- With the item after a delimiter at the end put back, the loop has split the
    stream at every delimiter. -/
theorem items_append_eq_splitOn {input : List α} (h : input ≠ []) :
    (items delimiter input ++ if input.getLast? = some delimiter then [[]] else []) =
      input.splitOn delimiter := by
  induction input with
  | nil => exact absurd rfl h
  | cons c rest ih =>
    rw [List.splitOn_cons_eq_if_modifyHead]
    cases rest with
    | nil =>
      by_cases hc : c = delimiter
      · simp [items, hc]
      · simp [items, hc]
    | cons d rest =>
      have hrest := ih (List.cons_ne_nil d rest)
      rw [← hrest, List.getLast?_cons_cons, items]
      by_cases hc : c = delimiter
      · simp [hc]
      · have hbeq : ¬(c == delimiter) = true := by simpa using hc
        rw [if_neg hc, if_neg hbeq]
        cases hitems : items delimiter (d :: rest) with
        | nil =>
          rw [items_eq] at hitems
          simp [next] at hitems
        | cons item more => rfl

theorem items_eq_singleton {item : List α} (hne : item ≠ []) (h : delimiter ∉ item) :
    items delimiter item = [item] := by
  induction item with
  | nil => exact absurd rfl hne
  | cons c rest ih =>
    rw [List.mem_cons, not_or] at h
    rw [items, if_neg (Ne.symm h.1)]
    by_cases hrest : rest = []
    · subst hrest
      rfl
    · rw [ih hrest h.2]

/-- An item is read up to its delimiter. -/
theorem items_append_cons {item : List α} (h : delimiter ∉ item) (rest : List α) :
    items delimiter (item ++ delimiter :: rest) = item :: items delimiter rest := by
  induction item with
  | nil => simp [items]
  | cons c item ih =>
    rw [List.mem_cons, not_or] at h
    rw [List.cons_append, items, if_neg (Ne.symm h.1), ih h.2]

/-- Items, each with its delimiter, are read back. -/
theorem items_flatMap {l : List (List α)} (h : ∀ item ∈ l, delimiter ∉ item) :
    items delimiter (l.flatMap fun item => item ++ [delimiter]) = l := by
  induction l with
  | nil => rfl
  | cons item l ih =>
    rw [List.forall_mem_cons] at h
    rw [List.flatMap_cons, List.append_assoc, List.singleton_append, items_append_cons h.1,
      ih h.2]

/-! ### Pieces -/

theorem length_splitOn (delimiter : α) (input : List α) :
    (input.splitOn delimiter).length = input.count delimiter + 1 := by
  induction input with
  | nil => rw [List.splitOn_nil, List.count_nil, List.length_singleton]
  | cons c rest ih =>
    rw [List.splitOn_cons_eq_if_modifyHead, List.count_cons]
    by_cases hc : (c == delimiter) = true
    · rw [if_pos hc, if_pos hc, List.length_cons, ih]
    · rw [if_neg hc, if_neg hc, List.length_modifyHead, ih, Nat.add_zero]

/-- No delimiter is in a piece. -/
theorem not_mem_of_mem_splitOn {piece input : List α} (h : piece ∈ input.splitOn delimiter) :
    delimiter ∉ piece := by
  induction input generalizing piece with
  | nil =>
    rw [List.splitOn_nil, List.mem_singleton] at h
    subst h
    exact List.not_mem_nil
  | cons c rest ih =>
    rw [List.splitOn_cons_eq_if_modifyHead] at h
    split at h
    · rcases List.mem_cons.mp h with rfl | hrest
      · exact List.not_mem_nil
      · exact ih hrest
    · rename_i hc
      obtain ⟨first, more, hsplit⟩ :=
        List.exists_cons_of_ne_nil (List.splitOn_ne_nil delimiter rest)
      rw [hsplit, List.modifyHead_cons] at h
      rw [hsplit] at ih
      rcases List.mem_cons.mp h with rfl | hmore
      · rw [List.mem_cons, not_or]
        exact ⟨fun heq => hc (beq_iff_eq.mpr heq.symm), ih List.mem_cons_self⟩
      · exact ih (List.mem_cons_of_mem first hmore)

/-- The pieces are the only ones without a delimiter that join to the stream. -/
theorem splitOn_eq_iff {input : List α} {pieces : List (List α)} :
    input.splitOn delimiter = pieces ↔
      pieces ≠ [] ∧ (∀ piece ∈ pieces, delimiter ∉ piece) ∧
        [delimiter].intercalate pieces = input := by
  constructor
  · rintro rfl
    exact ⟨List.splitOn_ne_nil delimiter input, fun _ => not_mem_of_mem_splitOn,
      List.intercalate_splitOn delimiter⟩
  · rintro ⟨hne, hpieces, rfl⟩
    exact List.splitOn_intercalate delimiter hpieces hne

theorem mem_of_mem_splitOn {c : α} {piece input : List α}
    (hpiece : piece ∈ input.splitOn delimiter) (hc : c ∈ piece) : c ∈ input := by
  induction input generalizing piece with
  | nil =>
    rw [List.splitOn_nil, List.mem_singleton] at hpiece
    subst hpiece
    exact hc
  | cons d rest ih =>
    rw [List.splitOn_cons_eq_if_modifyHead] at hpiece
    split at hpiece
    · rcases List.mem_cons.mp hpiece with rfl | hrest
      · cases hc
      · exact List.mem_cons_of_mem d (ih hrest hc)
    · obtain ⟨first, more, hsplit⟩ :=
        List.exists_cons_of_ne_nil (List.splitOn_ne_nil delimiter rest)
      rw [hsplit, List.modifyHead_cons] at hpiece
      rcases List.mem_cons.mp hpiece with rfl | hmore
      · rcases List.mem_cons.mp hc with rfl | hfirst
        · exact List.mem_cons_self
        · refine List.mem_cons_of_mem d (ih ?_ hfirst)
          rw [hsplit]
          exact List.mem_cons_self
      · refine List.mem_cons_of_mem d (ih ?_ hc)
        rw [hsplit]
        exact List.mem_cons_of_mem first hmore

end Getline
