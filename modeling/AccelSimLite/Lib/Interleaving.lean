import Mathlib.Tactic.Common

/-!
# Interleavings

A system whose parties take atomic steps in any order, as a relation between
states that is labelled with what happens in the step. A run records its labels
in order, so a property of the past is a property of the recorded trace.

## Main definitions

- `Interleaving.Run` — a run from a state, with its trace
- `Interleaving.Reachable` — the end state of some run
-/

namespace Interleaving

variable {σ τ ε κ : Type*}

/-- The runs of a labelled step relation from the state `s₀`, with their traces. -/
inductive Run (step : σ → ε → σ → Prop) (s₀ : σ) : List ε → σ → Prop
  | start : Run step s₀ [] s₀
  | next {trace : List ε} {s s' : σ} {e : ε} :
      Run step s₀ trace s → step s e s' → Run step s₀ (trace ++ [e]) s'

/-- The end states of runs. -/
def Reachable (step : σ → ε → σ → Prop) (s₀ s : σ) : Prop := ∃ trace, Run step s₀ trace s

variable {step : σ → ε → σ → Prop} {s₀ : σ}

/-- **Invariant rule** for a state and the trace that led to it. -/
theorem Run.invariant (Inv : List ε → σ → Prop) {trace : List ε} {s : σ}
    (h : Run step s₀ trace s) (hinit : Inv [] s₀)
    (hstep : ∀ trace u e v, Inv trace u → step u e v → Inv (trace ++ [e]) v) : Inv trace s := by
  induction h with
  | start => exact hinit
  | next _ hs ih => exact hstep _ _ _ _ ih hs

/-- **Invariant rule** for a step that may use what is known of all runs. -/
theorem Run.invariant_of_run (Inv : List ε → σ → Prop) {trace : List ε} {s : σ}
    (h : Run step s₀ trace s) (hinit : Inv [] s₀)
    (hstep : ∀ trace u e v, Run step s₀ trace u → Inv trace u → step u e v →
      Inv (trace ++ [e]) v) : Inv trace s := by
  induction h with
  | start => exact hinit
  | next hr hs ih => exact hstep _ _ _ _ hr ih hs

theorem Reachable.refl (step : σ → ε → σ → Prop) (s₀ : σ) : Reachable step s₀ s₀ := ⟨[], .start⟩

theorem Reachable.next {s s' : σ} {e : ε} (h : Reachable step s₀ s) (hs : step s e s') :
    Reachable step s₀ s' := by
  obtain ⟨trace, hrun⟩ := h
  exact ⟨trace ++ [e], hrun.next hs⟩

/-- **Projection rule**: when every step of a system is a step of a component, or
    leaves the component alone, the component sees a run of its own. -/
theorem Run.project {part : τ → κ → τ → Prop} (π : σ → τ) (γ : ε → Option κ)
    (hpart : ∀ s e s', step s e s' →
      γ e = none ∧ π s' = π s ∨ ∃ k, γ e = some k ∧ part (π s) k (π s'))
    {trace : List ε} {s : σ} (h : Run step s₀ trace s) :
    Run part (π s₀) (trace.filterMap γ) (π s) := by
  induction h with
  | start => exact .start
  | @next trace s s' e _ hs ih =>
    rw [List.filterMap_append]
    obtain ⟨hnone, hsame⟩ | ⟨k, hsome, hk⟩ := hpart s e s' hs
    · rw [List.filterMap_cons_none hnone, List.filterMap_nil, List.append_nil, hsame]
      exact ih
    · rw [List.filterMap_cons_some hsome, List.filterMap_nil]
      exact ih.next hk

end Interleaving
