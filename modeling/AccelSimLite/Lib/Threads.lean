import Mathlib.Algebra.BigOperators.Group.Finset.Basic
import Mathlib.Algebra.BigOperators.Group.Finset.Piecewise
import Mathlib.Algebra.Order.BigOperators.Group.Finset
import Mathlib.Algebra.GroupWithZero.Nat

/-!
# Families of threads

Any finite number of threads, each with a local state. A step of one thread
replaces its local state; what the threads hold together, in a commutative
monoid, changes by what that thread gives and takes.

## Main definitions

- `Threads.total` — the sum of a weight over the local states
- `Threads.count` — how many local states have a property
-/

namespace Threads

variable {ι σ M : Type*} [Fintype ι]

/-- The sum of a weight over all local states. -/
def total [AddCommMonoid M] (weight : σ → M) (threads : ι → σ) : M := ∑ i, weight (threads i)

/-- How many local states have a property. -/
def count (p : σ → Prop) [DecidablePred p] (threads : ι → σ) : ℕ :=
  total (fun s => if p s then 1 else 0) threads

omit [Fintype ι] in
/-- What holds of a thread after a step of one thread. -/
theorem of_update [DecidableEq ι] (P : σ → Prop) {threads : ι → σ} {i j : ι} {s : σ}
    (h : P (Function.update threads i s j)) : P s ∨ P (threads j) := by
  by_cases hj : j = i
  · subst hj
    rw [Function.update_self] at h
    exact .inl h
  · rw [Function.update_of_ne hj] at h
    exact .inr h

section Total

variable [AddCommMonoid M] {weight : σ → M} {threads threads' : ι → σ}

theorem total_congr (h : ∀ i, weight (threads i) = weight (threads' i)) :
    total weight threads = total weight threads' :=
  Finset.sum_congr rfl fun i _ => h i

/-- A thread gives up what it held and takes what it holds now. -/
theorem total_update [DecidableEq ι] (weight : σ → M) (threads : ι → σ) (i : ι) (s : σ) :
    total weight (Function.update threads i s) + weight (threads i) =
      total weight threads + weight s := by
  unfold total
  rw [← Finset.add_sum_erase Finset.univ _ (Finset.mem_univ i),
    ← Finset.add_sum_erase Finset.univ (fun j => weight (threads j)) (Finset.mem_univ i),
    Function.update_self]
  have hrest : ∑ j ∈ Finset.univ.erase i, weight (Function.update threads i s j) =
      ∑ j ∈ Finset.univ.erase i, weight (threads j) := by
    apply Finset.sum_congr rfl
    intro j hj
    rw [Function.update_of_ne (Finset.ne_of_mem_erase hj)]
  rw [hrest, add_right_comm, add_comm (weight s) (weight (threads i)), add_right_comm]

/-- A step that changes nothing of the weight changes nothing of the total. -/
theorem total_update_of_eq [DecidableEq ι] {i : ι} {s : σ} (h : weight s = weight (threads i)) :
    total weight (Function.update threads i s) = total weight threads := by
  apply total_congr
  intro j
  by_cases hj : j = i
  · rw [hj, Function.update_self, h]
  · rw [Function.update_of_ne hj]

theorem total_eq_zero (h : ∀ i, weight (threads i) = 0) : total weight threads = 0 :=
  Finset.sum_eq_zero fun i _ => h i

/-- What one thread holds is part of what all hold. -/
theorem le_total [PartialOrder M] [CanonicallyOrderedAdd M] [IsOrderedAddMonoid M]
    (weight : σ → M) (threads : ι → σ) (i : ι) : weight (threads i) ≤ total weight threads :=
  Finset.single_le_sum (f := fun j => weight (threads j)) (fun _ _ => zero_le)
    (Finset.mem_univ i)

end Total

section Count

variable {p : σ → Prop} [DecidablePred p] {threads threads' : ι → σ}

theorem count_congr (h : ∀ i, p (threads i) ↔ p (threads' i)) :
    count p threads = count p threads' := by
  apply total_congr
  intro i
  simp only [h i]

theorem count_update [DecidableEq ι] (p : σ → Prop) [DecidablePred p] (threads : ι → σ) (i : ι)
    (s : σ) :
    count p (Function.update threads i s) + (if p (threads i) then 1 else 0) =
      count p threads + if p s then 1 else 0 :=
  total_update _ threads i s

omit [Fintype ι] in
theorem indicator_le (h : ∀ i, p (threads i) → p (threads' i)) (i : ι) :
    (if p (threads i) then 1 else 0) ≤ if p (threads' i) then 1 else 0 := by
  by_cases hp : p (threads i)
  · rw [if_pos hp, if_pos (h i hp)]
  · rw [if_neg hp]
    exact Nat.zero_le _

theorem count_mono (h : ∀ i, p (threads i) → p (threads' i)) :
    count p threads ≤ count p threads' :=
  Finset.sum_le_sum fun i _ => indicator_le h i

/-- A thread that has the property now and had not before makes the count larger. -/
theorem count_lt (h : ∀ i, p (threads i) → p (threads' i)) {i : ι} (hi : ¬p (threads i))
    (hi' : p (threads' i)) : count p threads < count p threads' := by
  refine Finset.sum_lt_sum (fun j _ => indicator_le h j) ⟨i, Finset.mem_univ i, ?_⟩
  show (if p (threads i) then 1 else 0) < if p (threads' i) then 1 else 0
  rw [if_neg hi, if_pos hi']
  exact Nat.one_pos

theorem exists_of_count_pos (h : 0 < count p threads) : ∃ i, p (threads i) := by
  by_contra hnone
  have hzero : count p threads = 0 := by
    apply total_eq_zero
    intro i
    exact if_neg fun hp => hnone ⟨i, hp⟩
  exact Nat.lt_irrefl 0 (hzero ▸ h)

end Count

end Threads
