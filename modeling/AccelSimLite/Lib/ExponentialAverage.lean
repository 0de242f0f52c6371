import Mathlib.Algebra.Order.Field.Basic
import Mathlib.Order.Interval.Set.Defs
import Mathlib.Tactic.Linarith
import Mathlib.Tactic.LinearCombination
import Mathlib.Tactic.Ring

/-!
# Exponential averages

The average of a sequence in which every new value `x` replaces a share `a` of the
average so far, exactly and with a bounded error in every step.

## Main definitions

- `ExponentialAverage.next` — one step
- `ExponentialAverage.average` — the average of a sequence, starting from zero
- `ExponentialAverage.Rounded` — a sequence of averages that were rounded down

## Main results

- `ExponentialAverage.next_le_max` — a step stays below the larger of its arguments
- `ExponentialAverage.Rounded.error_mem_Ico` — the errors add up to less than `b / a`
-/

namespace ExponentialAverage

variable {K : Type*} [Field K] {a b : K}

def next (a y x : K) : K := a * x + (1 - a) * y

def average (a : K) (xs : List K) : K := xs.foldl (next a) 0

theorem average_concat (a : K) (xs : List K) (x : K) :
    average a (xs ++ [x]) = next a (average a xs) x := by
  simp only [average, List.foldl_append, List.foldl_cons, List.foldl_nil]

/-- What was rounded off before decays, and what is rounded off now is added. -/
theorem next_sub_next (z y x error : K) :
    next a z x - (next a y x - error) = (1 - a) * (z - y) + error := by
  simp only [next]
  ring

variable [LinearOrder K]

/-- The value is an average of the sequence, rounded down by less than `b` in every
    step. -/
inductive Rounded (a b : K) : List K → K → Prop
  | zero : Rounded a b [] 0
  | step {xs : List K} {y x error : K} (h : Rounded a b xs y) (herror : error ∈ Set.Ico 0 b) :
      Rounded a b (xs ++ [x]) (next a y x - error)

variable [IsStrictOrderedRing K]

theorem next_le_max (ha : 0 ≤ a) (ha' : a ≤ 1) (y x : K) : next a y x ≤ max x y := by
  have hx : a * x ≤ a * max x y := mul_le_mul_of_nonneg_left (le_max_left x y) ha
  have hy : (1 - a) * y ≤ (1 - a) * max x y :=
    mul_le_mul_of_nonneg_left (le_max_right x y) (by linarith)
  calc next a y x ≤ a * max x y + (1 - a) * max x y := add_le_add hx hy
    _ = max x y := by ring

theorem decay_mem_Ico (ha : 0 < a) (ha' : a ≤ 1) {e error : K} (he : e ∈ Set.Ico 0 (b / a))
    (herror : error ∈ Set.Ico 0 b) : (1 - a) * e + error ∈ Set.Ico 0 (b / a) := by
  have hkept : 0 ≤ 1 - a := by linarith
  have hlow : 0 ≤ (1 - a) * e := mul_nonneg hkept he.1
  have hhigh : (1 - a) * e ≤ (1 - a) * (b / a) := mul_le_mul_of_nonneg_left he.2.le hkept
  have hlimit : (1 - a) * (b / a) + b = b / a := by
    have hcancel : a * (b / a) = b := mul_div_cancel₀ b ha.ne'
    linear_combination -hcancel
  constructor
  · exact add_nonneg hlow herror.1
  · have hlt := herror.2
    linarith

/-- The errors form a geometric series, with the sum `b / a` as a bound. -/
theorem Rounded.error_mem_Ico (ha : 0 < a) (ha' : a ≤ 1) (hb : 0 < b) {xs : List K} {y : K}
    (h : Rounded a b xs y) : average a xs - y ∈ Set.Ico 0 (b / a) := by
  induction h with
  | zero =>
    rw [average, List.foldl_nil, sub_zero]
    exact ⟨le_refl 0, div_pos hb ha⟩
  | step _ herror ih =>
    rw [average_concat, next_sub_next]
    exact decay_mem_Ico ha ha' ih herror

end ExponentialAverage
