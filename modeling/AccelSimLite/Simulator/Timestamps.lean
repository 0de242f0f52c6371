import AccelSimLite.Simulator.Latency
import Mathlib.Data.List.MinMax

/-!
# Exact instruction timing

The timestamps in the result of a run say where every instruction was at the end of
every cycle. Fetch keeps its full width until the program ends, so the cycle of a fetch
is a quotient; and the loop makes two more iterations after the last completion, of which
the second finds nothing to do.

## Main results

- `ReachesIn.exists_last` — the exit follows the last completion
- `nextToFetch_of_reachesIn` — how far fetch is in each cycle
- `instruction_timing` — the timestamps and the totals of a run
-/

namespace AccelSim

/-! ### The last cycles -/

section

variable {workload : List Instruction} {config : SimulatorConfig} {k j i : ℕ} {s : SimState}

namespace ReachesIn

/-- Some instruction is the last to complete: the iteration before the exit retires it. -/
theorem exists_last (h : ReachesIn workload config k s) (hexit : hasWorkLeft s = false)
    (hne : workload ≠ []) : ∃ i, i < workload.length ∧ (s.instr i).completeCycle + 2 = k := by
  have hwork : hasWorkLeft (initState workload) = true := by
    have hlength := List.length_pos_iff.mpr hne
    by_contra hnone
    have hnext := (hasWorkLeft_eq_false.mp (Bool.eq_false_iff.mpr hnone)).1
    exact absurd hnext (Nat.not_le.mpr hlength)
  have hk : 0 < k := by
    rcases Nat.eq_zero_or_pos k with rfl | hk
    · cases h
      rw [hexit] at hwork
      cases hwork
    · exact hk
  have hu := h.stateAfter (Nat.sub_le k 1)
  by_contra hall
  push Not at hall
  have hdone : ∀ i, i < workload.length →
      (AccelSim.stateAfter workload config (k - 1)).Reached .done i := by
    intro i hi
    have hle := (h.timestamps_of_exit hexit hi).2.2
    have hne := hall i hi
    rw [(h.reached_at_iff hexit hi (Nat.sub_le k 1)).2]
    omega
  have hearly := (placed_of_reachesIn hu).exit_of_reached_done hdone
  have hle := WhileLoop.ReachesIn.le_of_exit hu hearly h
  omega

end ReachesIn

/-! ### Fetch -/

/-- Fetch takes its full width in every cycle until the program ends. -/
theorem nextToFetch_of_reachesIn (h : ReachesIn workload config k s) :
    s.nextToFetch = min workload.length (k * config.fetchWidth) := by
  have hinv : s.nextToFetch = min workload.length (s.cycle * config.fetchWidth) := by
    refine h.keeps (fun s => s.nextToFetch = min workload.length (s.cycle * config.fetchWidth))
      ?_ ?_
    · change 0 = min workload.length (0 * config.fetchWidth)
      rw [Nat.zero_mul, Nat.min_zero]
    · intro j u t v _ _ it ih
      rw [it.nextToFetch_finish, it.cycle_finish, ih, Nat.succ_mul]
      omega
  rwa [h.cycle_eq] at hinv

theorem ReachesIn.enqueueCycle_eq (h : ReachesIn workload config k s)
    (hexit : hasWorkLeft s = false) (hi : i < workload.length) :
    (s.instr i).enqueueCycle = i / config.fetchWidth := by
  -- fetched before cycle `j` is, on both sides, the same as being among the first indices
  have hfetched (j : ℕ) (hj : j ≤ k) :
      (s.instr i).enqueueCycle < j ↔ i < j * config.fetchWidth := by
    rw [← h.fetched_at_iff hexit hi hj, reached_fetch_iff,
      nextToFetch_of_reachesIn (h.stateAfter hj), lt_min_iff]
    exact and_iff_right hi
  have hlast := h.timestamps_of_exit hexit hi
  have hend := (hfetched k le_rfl).mp (by omega)
  have hwidth : 0 < config.fetchWidth := Nat.pos_of_ne_zero fun hzero => by
    rw [hzero, Nat.mul_zero] at hend
    exact Nat.not_lt_zero i hend
  have hquot (j : ℕ) : i / config.fetchWidth < j ↔ i < j * config.fetchWidth :=
    Nat.div_lt_iff_lt_mul hwidth
  apply Nat.le_antisymm
  · have hle : i / config.fetchWidth < k := (hquot k).mpr hend
    have hlt := (hfetched (i / config.fetchWidth + 1) hle).mpr ((hquot _).mp (Nat.lt_succ_self _))
    exact Nat.le_of_lt_succ hlt
  · have hlt := (hquot ((s.instr i).enqueueCycle + 1)).mpr
      ((hfetched _ (by omega)).mp (Nat.lt_succ_self _))
    exact Nat.le_of_lt_succ hlt

end

/-! ### The theorem -/

/-- The latency of what is waiting to retire does not wrap around. -/
theorem ReachesIn.enqueueCycle_le_of_retiring {workload : List Instruction}
    {config : SimulatorConfig} {k : ℕ} {s : SimState} (h : ReachesIn workload config k s) :
    ∀ i ∈ s.retireQ, (s.instr i).enqueueCycle ≤ (s.instr i).completeCycle := by
  intro i hi
  obtain ⟨hlt, hst⟩ := ((placed_of_reachesIn h).mem_iff .retire i).mp hi
  have htimed := (timed_of_reachesIn h).instr i hlt
  simp only [TimedAt, hst] at htimed
  have hticks := (s.instr i).one_le_ticks
  omega

/-- **Exact instruction timing** of every run that ends: an instruction completes after its
    latency, but at least a cycle, is issued three cycles after it was fetched or later, and
    is fetched in the cycle its index and the fetch width give; the loop ends two cycles
    after the last completion; and the total latency sums what the instructions took, as the
    `uint64_t` it is, with no difference that wraps around. -/
theorem instruction_timing (workload : List Instruction) (hne : workload ≠ [])
    (config : SimulatorConfig) (fuel : ℕ) (result : RunResult)
    (hrun : runWorkload fuel workload config = .ok (some result)) :
    (∀ i instruction, result.instructions[i]? = some instruction →
      instruction.completeCycle = instruction.issueCycle + max 1 instruction.executeLatency ∧
      instruction.enqueueCycle + 3 ≤ instruction.issueCycle ∧
      instruction.enqueueCycle = i / config.fetchWidth) ∧
    (∃ last, (result.instructions.map Instruction.completeCycle).max? = some last ∧
      result.stats.totalCycles = 2 + last) ∧
    result.stats.totalLatency =
      UInt64.ofNat (result.instructions.map fun i => i.completeCycle - i.enqueueCycle).sum ∧
    (∀ i ∈ result.instructions, i.enqueueCycle ≤ i.completeCycle) ∧
    ∀ k s, ReachesIn workload config k s →
      ∀ i ∈ s.retireQ, (s.instr i).enqueueCycle ≤ (s.instr i).completeCycle := by
  obtain ⟨k, s, _, h, hexit, rfl⟩ := runWorkload_eq_some_iff.mp hrun
  have hp := placed_of_reachesIn h
  have hinstr (i : ℕ) (instruction : Instruction) (hget : s.instructions[i]? = some instruction) :
      i < workload.length ∧ s.instr i = instruction := by
    obtain ⟨hlt, heq⟩ := List.getElem?_eq_some_iff.mp hget
    exact ⟨hp.length_eq ▸ hlt, (s.instr_eq_getElem hlt).trans heq⟩
  refine ⟨?_, ?_, ?_, ?_, fun _ _ hs => hs.enqueueCycle_le_of_retiring⟩
  · intro i instruction hget
    obtain ⟨hi, rfl⟩ := hinstr i instruction hget
    obtain ⟨hissue, hcomplete, _⟩ := h.timestamps_of_exit hexit hi
    exact ⟨hcomplete, hissue, h.enqueueCycle_eq hexit hi⟩
  · obtain ⟨i, hi, hlast⟩ := h.exists_last hexit hne
    refine ⟨(s.instr i).completeCycle, ?_, ?_⟩
    · rw [List.max?_eq_some_iff]
      constructor
      · exact List.mem_map_of_mem ((hp.mem_instructions_iff _).mpr ⟨i, hi, rfl⟩)
      · intro c hc
        obtain ⟨instruction, hinstruction, rfl⟩ := List.mem_map.mp hc
        obtain ⟨j, hj, rfl⟩ := (hp.mem_instructions_iff instruction).mp hinstruction
        have hle := (h.timestamps_of_exit hexit hj).2.2
        omega
    · change s.cycle = 2 + _
      rw [h.cycle_eq]
      omega
  · exact h.totalLatency_eq_sum hexit
  · intro instruction hinstruction
    obtain ⟨i, hi, rfl⟩ := (hp.mem_instructions_iff instruction).mp hinstruction
    have htimed := h.timestamps_of_exit hexit hi
    omega

theorem instruction_timing_dependentPair :
    ∃ result, runWorkload 12 dependentPair {} = .ok (some result) ∧
      ∃ last, (result.instructions.map Instruction.completeCycle).max? = some last ∧
        result.stats.totalCycles = 2 + last := by
  have hrun : ∃ result, runWorkload 12 dependentPair {} = .ok (some result) := ⟨_, rfl⟩
  obtain ⟨result, hrun⟩ := hrun
  exact ⟨result, hrun,
    (instruction_timing dependentPair (List.cons_ne_nil _ _) {} 12 result hrun).2.1⟩

end AccelSim
