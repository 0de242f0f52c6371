import AccelSimLite.WorkloadFile.Defs

/-!
# Splitting

The columns of a line and the tokens of a dependency column come from `split`. The test
on the last character puts back what `getline` leaves out at the end of the input, so
that joining the pieces gives the input again.

## Main results

- `split_eq_splitOn` — every delimiter is a cut
- `split_inverse` — the only pieces without a delimiter that join to the input
-/

namespace AccelSim

variable {input : List Char}

theorem split_eq_splitOn (h : input ≠ []) (delimiter : Char) :
    split input delimiter = input.splitOn delimiter :=
  Getline.items_append_eq_splitOn h

/-- A cut at a delimiter, whatever is on its two sides. -/
theorem split_append_cons (before after : List Char) (delimiter : Char) :
    split (before ++ delimiter :: after) delimiter =
      before.splitOn delimiter ++ after.splitOn delimiter := by
  have hne : before ++ delimiter :: after ≠ [] :=
    List.append_ne_nil_of_right_ne_nil before (List.cons_ne_nil delimiter after)
  rw [split_eq_splitOn hne, List.splitOn_append_cons_self]

theorem head?_split {delimiter : Char} (h : input.head? = some delimiter) :
    (split input delimiter).head? = some [] := by
  obtain ⟨rest, rfl⟩ := List.head?_eq_some_iff.mp h
  rw [← List.nil_append (delimiter :: rest), split_append_cons]
  rfl

theorem getLast?_split {delimiter : Char} (h : input.getLast? = some delimiter) :
    (split input delimiter).getLast? = some [] := by
  obtain ⟨front, rfl⟩ := List.getLast?_eq_some_iff.mp h
  rw [split_append_cons]
  exact List.getLast?_concat

/-- **Splitting is the inverse of joining.** The pieces of an input that is not empty are
    the only strings without a delimiter that join to it, one more than it has
    delimiters; a delimiter at the begin, at the end or behind another one gives an empty
    piece. -/
theorem split_inverse (delimiter : Char) :
    split [] delimiter = [] ∧
      ∀ input : List Char, input ≠ [] →
        (∀ pieces, split input delimiter = pieces ↔
          (∀ piece ∈ pieces, delimiter ∉ piece) ∧ [delimiter].intercalate pieces = input) ∧
        (split input delimiter).length = input.count delimiter + 1 ∧
        (input.head? = some delimiter → (split input delimiter).head? = some []) ∧
        (input.getLast? = some delimiter → (split input delimiter).getLast? = some []) ∧
        ∀ before after, input = before ++ delimiter :: delimiter :: after →
          split input delimiter =
            before.splitOn delimiter ++ [] :: after.splitOn delimiter := by
  refine ⟨rfl, fun input hne => ⟨fun pieces => ?_, ?_, head?_split, getLast?_split, ?_⟩⟩
  · rw [split_eq_splitOn hne, Getline.splitOn_eq_iff]
    refine ⟨And.right, fun h => ⟨?_, h⟩⟩
    rintro rfl
    exact hne h.2.symm
  · rw [split_eq_splitOn hne, Getline.length_splitOn]
  · rintro before after rfl
    rw [split_append_cons, List.splitOn_cons_eq_if_modifyHead, if_pos (beq_self_eq_true _)]

example : split ";a;;b;".toList ';' = [[], ['a'], [], ['b'], []] := by decide

end AccelSim
