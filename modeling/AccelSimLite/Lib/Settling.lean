import Mathlib

/-!
# Iterations that settle

A monotone step on the integers that leaves the values of an interval alone and moves all
others towards it. Its iterates do not pass the interval by: they come nearer to its
nearest value, and come to rest there.

## Main definitions

- `Settling.Attracts` — what the step does on either side of the interval
- `Settling.nearest` — the nearest value of an interval

## Main results

- `Settling.Attracts.step_cases` — a step does not pass the interval by
- `Settling.Attracts.iterate_eq_nearest` — where the iterates come to rest, and when
-/

namespace Settling

/-- The step fixes the values from `lo` to `hi`, and moves the others towards them. -/
structure Attracts (f : ℤ → ℤ) (lo hi : ℤ) : Prop where
  mono : Monotone f
  nonempty : lo ≤ hi
  fixed : ∀ y, lo ≤ y → y ≤ hi → f y = y
  rises : ∀ y, y < lo → y < f y
  falls : ∀ y, hi < y → f y < y

def nearest (lo hi y : ℤ) : ℤ := max lo (min y hi)

theorem natAbs_sub_nearest_le {lo hi z : ℤ} (y : ℤ) (hlo : lo ≤ z) (hhi : z ≤ hi) :
    (y - nearest lo hi y).natAbs ≤ (y - z).natAbs := by
  unfold nearest
  omega

namespace Attracts

variable {f : ℤ → ℤ} {lo hi : ℤ}

theorem nearest_mem (h : Attracts f lo hi) (y : ℤ) :
    lo ≤ nearest lo hi y ∧ nearest lo hi y ≤ hi :=
  ⟨le_max_left _ _, max_le h.nonempty (min_le_right _ _)⟩

/-- The values that the step leaves alone are those of the interval. -/
theorem eq_self_iff (h : Attracts f lo hi) (y : ℤ) : f y = y ↔ lo ≤ y ∧ y ≤ hi := by
  refine ⟨fun heq => ⟨?_, ?_⟩, fun hmem => h.fixed y hmem.1 hmem.2⟩
  · by_contra hlow
    exact absurd heq (h.rises y (lt_of_not_ge hlow)).ne'
  · by_contra hhigh
    exact absurd heq (h.falls y (lt_of_not_ge hhigh)).ne

/-- A step comes nearer to the interval and does not pass it by. -/
theorem step_cases (h : Attracts f lo hi) (y : ℤ) :
    nearest lo hi (f y) = nearest lo hi y ∧
      (y < f y ∧ f y ≤ nearest lo hi y ∨ nearest lo hi y ≤ f y ∧ f y < y ∨
        f y = y ∧ y = nearest lo hi y) := by
  have hle := h.nonempty
  unfold nearest
  rcases lt_or_ge y lo with hlow | hlow
  · have hrise := h.rises y hlow
    have hstop := h.mono hlow.le
    rw [h.fixed lo le_rfl hle] at hstop
    omega
  rcases lt_or_ge hi y with hhigh | hhigh
  · have hfall := h.falls y hhigh
    have hstop := h.mono hhigh.le
    rw [h.fixed hi hle le_rfl] at hstop
    omega
  · rw [h.fixed y hlow hhigh]
    omega

theorem nearest_iterate (h : Attracts f lo hi) (y : ℤ) (n : ℕ) :
    nearest lo hi (f^[n] y) = nearest lo hi y := by
  induction n with
  | zero => rfl
  | succ n ih => rw [Function.iterate_succ_apply', (h.step_cases _).1, ih]

/-- Each step outside of the interval comes nearer by one at least. -/
theorem natAbs_iterate_le (h : Attracts f lo hi) (y : ℤ) (n : ℕ) :
    (f^[n] y - nearest lo hi y).natAbs ≤ (y - nearest lo hi y).natAbs - n := by
  induction n with
  | zero => exact le_rfl
  | succ n ih =>
    have hcases := (h.step_cases (f^[n] y)).2
    rw [h.nearest_iterate] at hcases
    rw [Function.iterate_succ_apply']
    omega

/-- **The iterates come to rest** at the nearest value of the interval, after as many steps
    as it is away at most. -/
theorem iterate_eq_nearest (h : Attracts f lo hi) {y : ℤ} {n : ℕ}
    (hn : (y - nearest lo hi y).natAbs ≤ n) : f^[n] y = nearest lo hi y := by
  have hle := h.natAbs_iterate_le y n
  omega

end Attracts

end Settling
