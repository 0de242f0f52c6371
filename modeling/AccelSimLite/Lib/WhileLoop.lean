import Mathlib.Data.Nat.Notation
import Mathlib.Order.Basic
import Mathlib.Tactic.Common

/-!
# While loops whose body may fail

`while (guard s) s = body s` over an arbitrary state type, where one iteration
may throw. The loop is given twice: as a fuelled function `run`, which can be
evaluated, and as the relation `ReachesIn`, which counts completed iterations.
The rules below are the ones a verification uses: invariants, a decreasing
measure, and an invariant that keeps the guard true for ever.

## Main definitions

- `WhileLoop.run` — at most `fuel` iterations; `none` when the fuel is used up
- `WhileLoop.ReachesIn` — the state after a number of completed iterations
- `WhileLoop.after` — the same as a function, frozen at a failing body
-/

namespace WhileLoop

variable {σ ε : Type*} (guard : σ → Bool) (body : σ → Except ε σ)

/-- Run the loop for at most `fuel` iterations. The result is `none` when the
    guard still holds after them, and the thrown error when a body throws. -/
def run : ℕ → σ → Except ε (Option σ)
  | 0, s => if guard s then .ok none else .ok (some s)
  | fuel + 1, s =>
    if guard s then
      match body s with
      | .error e => .error e
      | .ok s' => run fuel s'
    else .ok (some s)

/-- `ReachesIn k s u`: from `s` the loop completes `k` iterations and is then
    back at its guard in state `u`. -/
inductive ReachesIn : ℕ → σ → σ → Prop
  | zero {s : σ} : ReachesIn 0 s s
  | step {k : ℕ} {s u v : σ} : ReachesIn k s u → guard u = true → body u = .ok v →
      ReachesIn (k + 1) s v

/-- The state after `k` iterations; a body that throws leaves the state as it is. -/
def after (body : σ → Except ε σ) : ℕ → σ → σ
  | 0, s => s
  | k + 1, s =>
    match body (after body k s) with
    | .error _ => after body k s
    | .ok s' => s'

variable {guard body}

theorem ReachesIn.head {k : ℕ} {s u v : σ} (hg : guard s = true) (hb : body s = .ok u)
    (h : ReachesIn guard body k u v) : ReachesIn guard body (k + 1) s v := by
  induction h with
  | zero => exact .step .zero hg hb
  | step _ hg' hb' ih => exact .step (ih hb) hg' hb'

/-- The first iteration of a run of at least one. -/
theorem ReachesIn.exists_head {k : ℕ} {s v : σ} (h : ReachesIn guard body (k + 1) s v) :
    guard s = true ∧ ∃ u, body s = .ok u ∧ ReachesIn guard body k u v := by
  induction k generalizing v with
  | zero =>
    cases h with | step h hg hb =>
    cases h
    exact ⟨hg, v, hb, .zero⟩
  | succ k ih =>
    cases h with | step h hg hb =>
    obtain ⟨hgs, u, hu, hrest⟩ := ih h
    exact ⟨hgs, u, hu, .step hrest hg hb⟩

theorem ReachesIn.eq_after {k : ℕ} {s u : σ} (h : ReachesIn guard body k s u) :
    u = after body k s := by
  induction h with
  | zero => rfl
  | step _ _ hb ih => simp [after, ← ih, hb]

/-- Two runs of the same length end in the same state. -/
theorem ReachesIn.unique {k : ℕ} {s u v : σ} (hu : ReachesIn guard body k s u)
    (hv : ReachesIn guard body k s v) : u = v :=
  hu.eq_after.trans hv.eq_after.symm

/-- Every shorter run is a prefix of a given one. -/
theorem ReachesIn.take {k : ℕ} {s u : σ} (h : ReachesIn guard body k s u) {j : ℕ} (hj : j ≤ k) :
    ReachesIn guard body j s (after body j s) := by
  induction h with
  | zero =>
    obtain rfl : j = 0 := by omega
    exact .zero
  | @step k s u v hr hg hb ih =>
    by_cases hjk : j ≤ k
    · exact ih hjk
    · obtain rfl : j = k + 1 := by omega
      have hv : ReachesIn guard body (k + 1) s v := .step hr hg hb
      exact hv.eq_after ▸ hv

/-- At every earlier iteration the guard held and the body succeeded. -/
theorem ReachesIn.step_at {k : ℕ} {s u : σ} (h : ReachesIn guard body k s u) {j : ℕ}
    (hj : j < k) : guard (after body j s) = true ∧
      body (after body j s) = .ok (after body (j + 1) s) := by
  have hnext := h.take (Nat.succ_le_of_lt hj)
  generalize hv : after body (j + 1) s = v at hnext
  cases hnext with | step hr hg hb =>
  rw [← hr.eq_after]
  exact ⟨hg, hv ▸ hb⟩

/-- No run is longer than one that ends with the guard false. -/
theorem ReachesIn.le_of_exit {k j : ℕ} {s u v : σ} (hu : ReachesIn guard body k s u)
    (hexit : guard u = false) (hv : ReachesIn guard body j s v) : j ≤ k := by
  by_contra hlt
  have hg := (hv.step_at (Nat.lt_of_not_le hlt)).1
  rw [← hu.eq_after, hexit] at hg
  exact absurd hg (by decide)

/-! ### The fuelled function and the relation -/

theorem run_of_exit {s : σ} (hexit : guard s = false) (fuel : ℕ) :
    run guard body fuel s = .ok (some s) := by
  cases fuel <;> simp [run, hexit]

theorem run_eq_of_reachesIn {k : ℕ} {s u : σ} (h : ReachesIn guard body k s u) (fuel : ℕ) :
    run guard body (k + fuel) s = run guard body fuel u := by
  induction k generalizing s with
  | zero =>
    cases h
    rw [Nat.zero_add]
  | succ k ih =>
    obtain ⟨hg, v, hb, hrest⟩ := h.exists_head
    rw [show k + 1 + fuel = (k + fuel) + 1 by omega, run, if_pos hg, hb]
    exact ih hrest

/-- The fuelled loop returns a state exactly when a run within the fuel reaches
    that state with the guard false. -/
theorem run_eq_some_iff {fuel : ℕ} {s u : σ} :
    run guard body fuel s = .ok (some u) ↔
      ∃ k, k ≤ fuel ∧ ReachesIn guard body k s u ∧ guard u = false := by
  constructor
  · intro h
    induction fuel generalizing s with
    | zero =>
      by_cases hg : guard s = true
      · simp [run, hg] at h
      · simp only [run, hg, Bool.false_eq_true, if_false, Except.ok.injEq, Option.some.injEq] at h
        subst h
        exact ⟨0, Nat.le_refl 0, .zero, by simpa using hg⟩
    | succ fuel ih =>
      by_cases hg : guard s = true
      · rw [run, if_pos hg] at h
        cases hb : body s with
        | error e => simp [hb] at h
        | ok s' =>
          simp only [hb] at h
          obtain ⟨k, hk, hr, hexit⟩ := ih h
          exact ⟨k + 1, by omega, hr.head hg hb, hexit⟩
      · simp only [run, hg, Bool.false_eq_true, if_false, Except.ok.injEq, Option.some.injEq] at h
        subst h
        exact ⟨0, Nat.zero_le _, .zero, by simpa using hg⟩
  · rintro ⟨k, hk, hr, hexit⟩
    obtain ⟨d, rfl⟩ := Nat.exists_eq_add_of_le hk
    rw [run_eq_of_reachesIn hr, run_of_exit hexit]

/-- The fuelled loop throws exactly when a body within the fuel throws. -/
theorem run_eq_error_iff {fuel : ℕ} {s : σ} {e : ε} :
    run guard body fuel s = .error e ↔
      ∃ k u, k < fuel ∧ ReachesIn guard body k s u ∧ guard u = true ∧ body u = .error e := by
  constructor
  · intro h
    induction fuel generalizing s with
    | zero =>
      by_cases hg : guard s = true <;> simp [run, hg] at h
    | succ fuel ih =>
      by_cases hg : guard s = true
      · rw [run, if_pos hg] at h
        cases hb : body s with
        | error e' =>
          simp only [hb, Except.error.injEq] at h
          exact ⟨0, s, Nat.succ_pos _, .zero, hg, h ▸ hb⟩
        | ok s' =>
          simp only [hb] at h
          obtain ⟨k, u, hk, hr, hgu, hbu⟩ := ih h
          exact ⟨k + 1, u, by omega, hr.head hg hb, hgu, hbu⟩
      · simp [run, hg] at h
  · rintro ⟨k, u, hk, hr, hgu, hbu⟩
    obtain ⟨d, rfl⟩ := Nat.exists_eq_add_of_lt hk
    rw [show k + d + 1 = k + (d + 1) by omega, run_eq_of_reachesIn hr, run, if_pos hgu, hbu]

/-! ### Rules -/

/-- **Invariant rule**, with the number of completed iterations: what holds at
    first and is kept by every iteration holds at the guard after every run. -/
theorem ReachesIn.invariant (Inv : ℕ → σ → Prop) {k : ℕ} {s u : σ}
    (h : ReachesIn guard body k s u) (hinit : Inv 0 s)
    (hstep : ∀ j v w, Inv j v → guard v = true → body v = .ok w → Inv (j + 1) w) : Inv k u := by
  induction h with
  | zero => exact hinit
  | step _ hg hb ih => exact hstep _ _ _ (ih hinit) hg hb

/-- **Measure rule**: if under an invariant every iteration succeeds and
    decreases a measure, the loop exits within the initial measure. -/
theorem exists_exit_of_measure (Inv : σ → Prop) (m : σ → ℕ)
    (hstep : ∀ u, Inv u → guard u = true → ∃ v, body u = .ok v ∧ Inv v ∧ m v < m u)
    {s : σ} (hs : Inv s) :
    ∃ k u, k ≤ m s ∧ ReachesIn guard body k s u ∧ guard u = false := by
  induction hm : m s using Nat.strongRecOn generalizing s with
  | _ n ih =>
    by_cases hg : guard s = true
    · obtain ⟨v, hb, hv, hlt⟩ := hstep s hs hg
      obtain ⟨k, u, hk, hr, hexit⟩ := ih (m v) (hm ▸ hlt) hv rfl
      exact ⟨k + 1, u, by omega, hr.head hg hb, hexit⟩
    · exact ⟨0, s, Nat.zero_le _, .zero, by simpa using hg⟩

/-- **Divergence rule**: if an invariant keeps the guard true and the body
    succeeding, the loop completes every number of iterations and never exits. -/
theorem reachesIn_of_forever (Inv : σ → Prop)
    (hstep : ∀ u, Inv u → guard u = true ∧ ∃ v, body u = .ok v ∧ Inv v) {s : σ} (hs : Inv s)
    (k : ℕ) : ∃ u, ReachesIn guard body k s u ∧ Inv u := by
  induction k with
  | zero => exact ⟨s, .zero, hs⟩
  | succ k ih =>
    obtain ⟨u, hr, hu⟩ := ih
    obtain ⟨hg, v, hb, hv⟩ := hstep u hu
    exact ⟨v, .step hr hg hb, hv⟩

end WhileLoop
