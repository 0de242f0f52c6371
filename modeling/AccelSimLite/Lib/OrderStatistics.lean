import Mathlib.Data.List.Sort
import Mathlib.Order.Basic
import Mathlib.Order.Defs.LinearOrder

/-!
# Order statistics of paired lists

When some pairing of two lists relates every two partners, and the relation only
gets weaker with a smaller first and a larger second component, then the `k`-th
smallest elements of the two lists are related as well.

## Main definitions

- `Paired r l l'` — some rearrangement of `l'` is related to `l` position by position

## Main results

- `Paired.getElem_insertionSort` — the sorted lists are related position by position
-/

/-- Some rearrangement of the second list is related to the first one position by
    position. -/
def Paired {α β : Type*} (r : α → β → Prop) (l : List α) (l' : List β) : Prop :=
  ∃ m : List β, m.Perm l' ∧ List.Forall₂ r l m

namespace Paired

variable {α β γ δ : Type*}

theorem length_eq {r : α → β → Prop} {l : List α} {l' : List β} (h : Paired r l l') :
    l.length = l'.length := by
  obtain ⟨m, hperm, hrel⟩ := h
  exact hrel.length_eq.trans hperm.length_eq

theorem map {r : γ → δ → Prop} {f : α → γ} {g : β → δ} {l : List α} {l' : List β}
    (h : Paired (fun a b => r (f a) (g b)) l l') : Paired r (l.map f) (l'.map g) := by
  obtain ⟨m, hperm, hrel⟩ := h
  exact ⟨m.map g, hperm.map g, List.forall₂_map_left_iff.mpr (List.forall₂_map_right_iff.mpr hrel)⟩

end Paired

/-! ### Counting in a sorted list -/

section

variable {α : Type*} [LinearOrder α] {l : List α} {k : ℕ}

theorem List.Pairwise.getElem_le_getElem (h : l.Pairwise (· ≤ ·)) {i j : ℕ} (hij : i ≤ j)
    (hj : j < l.length) : l[i] ≤ l[j] := by
  rcases hij.eq_or_lt with rfl | hlt
  · exact le_rfl
  · exact List.pairwise_iff_getElem.mp h i j (by omega) hj hlt

/-- At most `k` elements are below the `k`-th smallest one. -/
theorem List.Pairwise.countP_lt_getElem (h : l.Pairwise (· ≤ ·)) (hk : k < l.length) :
    l.countP (· < l[k]) ≤ k := by
  have hdrop : (l.drop k).countP (· < l[k]) = 0 := by
    rw [List.countP_eq_zero]
    intro a ha
    obtain ⟨i, hi, rfl⟩ := List.mem_iff_getElem.mp ha
    rw [List.length_drop] at hi
    rw [List.getElem_drop, decide_eq_true_eq, not_lt]
    exact h.getElem_le_getElem (Nat.le_add_right k i) (by omega)
  calc l.countP (· < l[k])
      = (l.take k ++ l.drop k).countP (· < l[k]) := by rw [List.take_append_drop]
    _ = (l.take k).countP (· < l[k]) := by rw [List.countP_append, hdrop, Nat.add_zero]
    _ ≤ (l.take k).length := List.countP_le_length
    _ ≤ k := List.length_take_le k l

/-- At least `k + 1` elements are no larger than the `k`-th smallest one. -/
theorem List.Pairwise.succ_le_countP_le_getElem (h : l.Pairwise (· ≤ ·)) (hk : k < l.length) :
    k + 1 ≤ l.countP (· ≤ l[k]) := by
  have htake : (l.take (k + 1)).countP (· ≤ l[k]) = (l.take (k + 1)).length := by
    rw [List.countP_eq_length]
    intro a ha
    obtain ⟨i, hi, rfl⟩ := List.mem_iff_getElem.mp ha
    rw [List.length_take] at hi
    rw [List.getElem_take, decide_eq_true_eq]
    exact h.getElem_le_getElem (by omega) hk
  have hlength : (l.take (k + 1)).length = k + 1 := List.length_take_of_le hk
  have hsub := (List.take_sublist (k + 1) l).countP_le (p := fun a => a ≤ l[k])
  omega

end

/-- Sorting forgets the order. -/
theorem List.Perm.insertionSort_eq {α : Type*} [LinearOrder α] {l l' : List α} (h : l.Perm l') :
    l.insertionSort (· ≤ ·) = l'.insertionSort (· ≤ ·) :=
  (((List.perm_insertionSort (· ≤ ·) l).trans h).trans
      (List.perm_insertionSort (· ≤ ·) l').symm).eq_of_pairwise'
    (List.pairwise_insertionSort (· ≤ ·) l) (List.pairwise_insertionSort (· ≤ ·) l')

/-! ### Domination -/

theorem List.Forall₂.countP_le_countP {α β : Type*} {r : α → β → Prop} {p : α → Bool}
    {q : β → Bool} {l : List α} {m : List β} (h : List.Forall₂ r l m)
    (hpq : ∀ a b, r a b → q b → p a) : m.countP q ≤ l.countP p := by
  induction h with
  | nil => exact le_rfl
  | @cons a b l m hab _ ih =>
    rw [List.countP_cons, List.countP_cons]
    by_cases hq : q b
    · rw [if_pos hq, if_pos (hpq a b hab hq)]
      omega
    · rw [if_neg hq]
      omega

namespace Paired

variable {α : Type*} [LinearOrder α] {r : α → α → Prop} {l l' : List α}

/-- The sorted lists are related position by position: of the `k + 1` partners of the
    smallest `k + 1` elements of `l'`, one is not below the `k`-th of `l`. -/
theorem getElem_insertionSort (hr : ∀ a a' b b', a ≤ a' → r a' b' → b' ≤ b → r a b)
    (h : Paired r l l') {k : ℕ} (hk : k < (l.insertionSort (· ≤ ·)).length)
    (hk' : k < (l'.insertionSort (· ≤ ·)).length) :
    r (l.insertionSort (· ≤ ·))[k] (l'.insertionSort (· ≤ ·))[k] := by
  obtain ⟨m, hperm, hrel⟩ := h
  have hsorted : (l.insertionSort (· ≤ ·)).Pairwise (· ≤ ·) := List.pairwise_insertionSort _ l
  have hsorted' : (l'.insertionSort (· ≤ ·)).Pairwise (· ≤ ·) := List.pairwise_insertionSort _ l'
  have hbelow := hsorted.countP_lt_getElem hk
  have habove := hsorted'.succ_le_countP_le_getElem hk'
  rw [(List.perm_insertionSort (· ≤ ·) l).countP_eq] at hbelow
  rw [((List.perm_insertionSort (· ≤ ·) l').trans hperm.symm).countP_eq] at habove
  by_contra hnot
  -- otherwise the partner of everything up to the `k`-th of `l'` is below the `k`-th of `l`
  have hcount := hrel.countP_le_countP (p := fun a => a < (l.insertionSort (· ≤ ·))[k])
    (q := fun b => b ≤ (l'.insertionSort (· ≤ ·))[k]) (by
      intro a b hab hb
      rw [decide_eq_true_eq] at hb ⊢
      by_contra hle
      exact hnot (hr _ _ _ _ (not_lt.mp hle) hab hb))
  omega

end Paired
