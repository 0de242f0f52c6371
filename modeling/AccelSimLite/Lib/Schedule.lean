import Mathlib.Algebra.BigOperators.Group.Finset.Piecewise
import Mathlib.Algebra.Order.BigOperators.Group.Finset
import Mathlib.Algebra.Order.Ring.Nat
import Mathlib.Data.Finset.Max
import Mathlib.Data.List.Chain
import Mathlib.Order.Interval.Finset.Nat

/-!
# Schedules

Jobs that take up the time from their start to their finish. How many jobs are under way
in an instant, summed up over time, is how long they take all together. When no job waits
but in busy instants, there is a chain of jobs, each waiting for the one before, that
accounts for all the other time until the last job is finished.

## Main definitions

- `Schedule.underWay` — the jobs that are under way in an instant
- `Schedule.Greedy` — no job waits without a reason

## Main results

- `Schedule.sum_card_underWay` — the time that the jobs take
- `Schedule.mul_card_le` — instants in which many jobs are under way are few
- `Schedule.Greedy.exists_critical_chain` — the chain of jobs that a job has waited for
-/

namespace Schedule

variable {ι : Type*} {jobs : Finset ι} {start finish : ι → ℕ}

/-- The jobs that are under way in an instant. -/
def underWay (jobs : Finset ι) (start finish : ι → ℕ) (t : ℕ) : Finset ι :=
  jobs.filter fun i => start i ≤ t ∧ t < finish i

theorem sum_underWay_eq (times : Finset ℕ) :
    ∑ t ∈ times, (underWay jobs start finish t).card =
      ∑ i ∈ jobs, (times.filter fun t => start i ≤ t ∧ t < finish i).card := by
  simp only [underWay, Finset.card_filter]
  exact Finset.sum_comm

/-- **The time that jobs take** is how many of them are under way, summed up over time. -/
theorem sum_card_underWay {horizon : ℕ} (hend : ∀ i ∈ jobs, finish i ≤ horizon) :
    ∑ t ∈ Finset.range horizon, (underWay jobs start finish t).card =
      ∑ i ∈ jobs, (finish i - start i) := by
  rw [sum_underWay_eq]
  refine Finset.sum_congr rfl fun i hi => ?_
  have hinterval : ((Finset.range horizon).filter fun t => start i ≤ t ∧ t < finish i) =
      Finset.Ico (start i) (finish i) := by
    ext t
    have := hend i hi
    rw [Finset.mem_filter, Finset.mem_range, Finset.mem_Ico]
    omega
  rw [hinterval, Nat.card_Ico]

/-- Instants in which at least `m` jobs are under way are few. -/
theorem mul_card_le {m : ℕ} {full : Finset ℕ}
    (hfull : ∀ t ∈ full, m ≤ (underWay jobs start finish t).card) :
    m * full.card ≤ ∑ i ∈ jobs, (finish i - start i) := by
  calc m * full.card = ∑ _t ∈ full, m := by rw [Finset.sum_const_nat fun _ _ => rfl, Nat.mul_comm]
    _ ≤ ∑ t ∈ full, (underWay jobs start finish t).card := Finset.sum_le_sum hfull
    _ = ∑ i ∈ jobs, (full.filter fun t => start i ≤ t ∧ t < finish i).card := sum_underWay_eq full
    _ ≤ ∑ i ∈ jobs, (finish i - start i) := by
      refine Finset.sum_le_sum fun i _ => ?_
      rw [← Nat.card_Ico]
      refine Finset.card_le_card fun t ht => ?_
      rw [Finset.mem_filter] at ht
      exact Finset.mem_Ico.mpr ht.2

/-- A job waits only in busy instants, before `base`, and until a job it waits for is
    finished. -/
def Greedy (jobs : Finset ι) (start finish : ι → ℕ) (waitsFor : ι → ι → Prop) (busy : Finset ℕ)
    (base : ℕ) : Prop :=
  ∀ i ∈ jobs, ∀ t, t < start i → t ∈ busy ∨ t < base ∨ ∃ j ∈ jobs, waitsFor i j ∧ t ≤ finish j

variable {waitsFor : ι → ι → Prop} {busy : Finset ℕ} {base : ℕ}

/-- The last thing that a job has waited for, but for busy instants. -/
theorem Greedy.exists_release (h : Greedy jobs start finish waitsFor busy base) {i : ι}
    (hi : i ∈ jobs) :
    ∃ release, (∀ t, release ≤ t → t < start i → t ∈ busy) ∧
      (release = base ∨ ∃ j ∈ jobs, waitsFor i j ∧ release = finish j + 1) := by
  by_cases hbusy : ∀ t, base ≤ t → t < start i → t ∈ busy
  · exact ⟨base, hbusy, .inl rfl⟩
  · push Not at hbusy
    obtain ⟨t, hbase, hstart, hfree⟩ := hbusy
    have hne : ((Finset.range (start i)).filter (· ∉ busy)).Nonempty :=
      ⟨t, Finset.mem_filter.mpr ⟨Finset.mem_range.mpr hstart, hfree⟩⟩
    obtain ⟨u, hu, hlast⟩ := Finset.exists_max_image _ id hne
    rw [Finset.mem_filter, Finset.mem_range] at hu
    have htu := hlast t (Finset.mem_filter.mpr ⟨Finset.mem_range.mpr hstart, hfree⟩)
    simp only [id] at htu
    obtain hin | hearly | ⟨j, hj, hwaits, hle⟩ := h i hi u hu.1
    · exact absurd hin hu.2
    · omega
    · refine ⟨finish j + 1, fun v hv hlt => ?_, .inr ⟨j, hj, hwaits, rfl⟩⟩
      by_contra hnot
      have hvu := hlast v (Finset.mem_filter.mpr ⟨Finset.mem_range.mpr hlt, hnot⟩)
      simp only [id] at hvu
      omega

/-- Busy instants are counted before and after a moment. -/
theorem card_busy_le {release stop stop' : ℕ} (hle : stop ≤ release) (hle' : stop ≤ stop')
    (hbusy : ∀ t, release ≤ t → t < stop' → t ∈ busy) :
    (busy.filter (· < stop)).card + (stop' - release) ≤ (busy.filter (· < stop')).card := by
  have hapart : Disjoint (busy.filter (· < stop)) (Finset.Ico release stop') := by
    rw [Finset.disjoint_left]
    intro t ht hin
    rw [Finset.mem_filter] at ht
    rw [Finset.mem_Ico] at hin
    omega
  rw [← Nat.card_Ico, ← Finset.card_union_of_disjoint hapart]
  refine Finset.card_le_card fun t ht => ?_
  rw [Finset.mem_union, Finset.mem_filter, Finset.mem_Ico] at ht
  rw [Finset.mem_filter]
  rcases ht with ⟨ht, hlt⟩ | ⟨hge, hlt⟩
  · exact ⟨ht, by omega⟩
  · exact ⟨hbusy t hge hlt, hlt⟩

/-- **The critical chain**: the time until a job is finished is that of the busy instants
    before its start and of a chain of jobs that ends with it. -/
theorem Greedy.exists_critical_chain (h : Greedy jobs start finish waitsFor busy base)
    (hfinish : ∀ i ∈ jobs, start i ≤ finish i)
    (hafter : ∀ i j, waitsFor i j → finish j < start i) {i : ι} (hi : i ∈ jobs) :
    ∃ chain : List ι, (∀ j ∈ chain ++ [i], j ∈ jobs) ∧
      (chain ++ [i]).IsChain (fun a b => waitsFor b a) ∧
      finish i + 1 ≤ base + ((chain ++ [i]).map fun j => finish j - start j + 1).sum +
        (busy.filter (· < start i)).card := by
  induction hn : start i using Nat.strong_induction_on generalizing i with
  | _ n ih =>
    subst hn
    obtain ⟨release, hbusy, hrelease⟩ := h.exists_release hi
    have hlength := hfinish i hi
    rcases hrelease with rfl | ⟨j, hj, hwaits, rfl⟩
    · refine ⟨[], ?_, .singleton i, ?_⟩
      · simpa using hi
      · have hmore := card_busy_le (Nat.zero_le _) (Nat.zero_le _) hbusy
        simp only [List.nil_append, List.map_singleton, List.sum_singleton]
        omega
    · have hlate := hafter i j hwaits
      have hearly := hfinish j hj
      obtain ⟨chain, hmem, hchain, hsum⟩ := ih (start j) (by omega) hj rfl
      refine ⟨chain ++ [j], ?_, ?_, ?_⟩
      · rw [List.forall_mem_append]
        exact ⟨hmem, by simpa using hi⟩
      · refine hchain.append (.singleton i) ?_
        intro a ha b hb
        rw [List.getLast?_concat, Option.mem_some_iff] at ha
        rw [List.head?_singleton, Option.mem_some_iff] at hb
        subst ha hb
        exact hwaits
      · have hmore := card_busy_le (show start j ≤ finish j + 1 by omega)
          (show start j ≤ start i by omega) hbusy
        rw [List.map_append, List.sum_append, List.map_singleton, List.sum_singleton]
        omega

end Schedule
