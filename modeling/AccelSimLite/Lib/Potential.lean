import AccelSimLite.Lib.CondVar
import AccelSimLite.Lib.Interleaving

/-!
# Potentials of interleavings

A natural number that every step lowers bounds the length of the runs. Where some
events, such as those of an environment, raise it again, they pay for the steps that
they cause, and a run is no longer than the potential at its start and what was paid.
If some unpaid step is possible wherever the system has not come to its end, then it
can be brought there from the end of every run.

## Main definitions

- `Interleaving.Amortised` — every step of a run costs one of the potential

## Main results

- `Interleaving.Amortised.length_add_le` — the length of a run
- `Interleaving.Amortised.exists_end` — a run can be continued to the end of the system
- `CondVar.Wakes.total_le` — what waking costs
-/

namespace Interleaving

variable {σ ε : Type*} {step : σ → ε → σ → Prop} {s₀ s : σ} {trace : List ε}
  {potential : σ → ℕ} {price : ℕ} {paid : ε → ℕ}

/-- A step of a run costs one of the potential, and every payment adds its price. -/
def Amortised (step : σ → ε → σ → Prop) (s₀ : σ) (potential : σ → ℕ) (price : ℕ)
    (paid : ε → ℕ) : Prop :=
  ∀ trace s e s', Run step s₀ trace s → step s e s' →
    potential s' + 1 ≤ potential s + price * paid e

/-- A run is no longer than the potential that it uses up and what is paid for. -/
theorem Amortised.length_add_le (h : Amortised step s₀ potential price paid)
    (hrun : Run step s₀ trace s) :
    trace.length + potential s ≤ potential s₀ + price * (trace.map paid).sum := by
  refine hrun.invariant_of_run
    (fun trace s => trace.length + potential s ≤ potential s₀ + price * (trace.map paid).sum)
    ?_ ?_
  · rw [List.length_nil, Nat.zero_add]
    exact Nat.le_add_right _ _
  · intro trace u e v hu ih hs
    have hstep := h trace u e v hu hs
    rw [List.length_append, List.length_singleton, List.map_append, List.sum_append,
      List.map_singleton, List.sum_singleton, Nat.mul_add]
    omega

/-- A run from the state that a step leads to, with this step before it. -/
theorem Run.head {s₁ s₂ : σ} {e : ε} (h : Run step s₁ trace s₂) (hs : step s e s₁) :
    Run step s (e :: trace) s₂ := by
  induction h with
  | start => exact .next .start hs
  | next _ hlast ih => exact ih.next hlast

/-- Where only steps that are paid for are possible, nothing happens without payment. -/
theorem Run.eq_of_stuck (hstuck : ∀ e s', step s e s' → paid e ≠ 0) {s' : σ}
    (h : Run step s trace s') (hfree : ∀ e ∈ trace, paid e = 0) : s' = s := by
  induction h with
  | start => rfl
  | @next trace u v e _ hs ih =>
    rw [List.forall_mem_append] at hfree
    obtain rfl := ih hfree.1
    exact absurd (hfree.2 e (List.mem_singleton_self e)) (hstuck e v hs)

/-- **Progress and a potential bring a system to its end**, without a step that is
    paid for. -/
theorem Amortised.exists_end (h : Amortised step s₀ potential price paid) {ended : σ → Prop}
    (hprogress : ∀ trace s, Run step s₀ trace s → ¬ended s →
      ∃ e s', step s e s' ∧ paid e = 0)
    (hrun : Run step s₀ trace s) :
    ∃ rest s', Run step s rest s' ∧ ended s' ∧ ∀ e ∈ rest, paid e = 0 := by
  induction hn : potential s using Nat.strong_induction_on generalizing trace s with
  | _ n ih =>
    by_cases hend : ended s
    · exact ⟨[], s, .start, hend, fun e he => absurd he List.not_mem_nil⟩
    · obtain ⟨e, s', hs, hfree⟩ := hprogress trace s hrun hend
      have hless := h trace s e s' hrun hs
      rw [hfree, Nat.mul_zero] at hless
      obtain ⟨rest, s'', hrest, hend', hunpaid⟩ :=
        ih (potential s') (by omega) (hrun.next hs) rfl
      refine ⟨e :: rest, s'', hrest.head hs, hend', ?_⟩
      rw [List.forall_mem_cons]
      exact ⟨hfree, hunpaid⟩

end Interleaving

namespace CondVar

variable {ι σ : Type*} [Fintype ι] {cv : CondVar σ} {threads threads' : ι → σ}

/-- Where waking a thread costs at most one, it costs at most one for each thread. -/
theorem Wakes.total_le (h : cv.Wakes threads threads') (weight : σ → ℕ)
    (hweight : ∀ s, cv.asleep s → weight (cv.wake s) ≤ weight s + 1) :
    Threads.total weight threads' ≤ Threads.total weight threads + Fintype.card ι := by
  have hthread : ∀ i, weight (threads' i) ≤ weight (threads i) + 1 := by
    intro i
    obtain hsame | ⟨hold, hwake⟩ := h i
    · rw [hsame]
      exact Nat.le_add_right _ _
    · rw [hwake]
      exact hweight _ hold
  refine (Finset.sum_le_sum fun i _ => hthread i).trans_eq ?_
  rw [Finset.sum_add_distrib, ← Finset.card_eq_sum_ones]
  rfl

omit [Fintype ι] in
/-- To wake everybody is one of the things that a signal may do. -/
theorem signals_broadcast (cv : CondVar σ) (threads : ι → σ) :
    cv.Signals threads (cv.broadcast threads) where
  wakes := wakes_broadcast cv threads
  exists_woken i hi := ⟨i, hi, if_pos hi⟩

end CondVar
