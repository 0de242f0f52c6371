import AccelSimLite.Simulator.Dependencies
import AccelSimLite.WorkloadFile.Dependencies

/-!
# Simulating a loaded file

What the loader guarantees is what the simulator relies on: the ids are distinct, and
every dependency is the id of an instruction. With a dependency column that loses
nothing, an instruction is not issued before all that the file lists for it have
retired.

## Main results

- `LoadedFrom.depsNamed` — a loaded workload names its dependencies
- `listed_retired_of_issued` — the file's dependencies in every reachable state
-/

namespace AccelSim

variable {rows : List (List Char)} {workload : List Instruction}

theorem LoadedFrom.depsNamed (h : LoadedFrom rows workload) : DepsNamed workload := by
  intro i hi dep hdep
  obtain ⟨instruction, hmem, hid⟩ := List.mem_map.mp (h.deps _ (programAt_mem hi) dep hdep)
  obtain ⟨j, hj, hget⟩ := List.getElem_of_mem hmem
  refine ⟨j, hj, ?_⟩
  rw [programAt, List.getD_eq_getElem?_getD, List.getElem?_eq_getElem hj, Option.getD_some,
    hget, hid]

/-- The row of an instruction. -/
theorem LoadedFrom.reads_at (h : LoadedFrom rows workload) {i : ℕ} {row : List Char}
    (hrow : rows[i]? = some row) : RowReads row (programAt workload i) := by
  obtain ⟨hlength, hget⟩ := List.forall₂_iff_get.mp h.reads
  obtain ⟨hi, hrow⟩ := List.getElem?_eq_some_iff.mp hrow
  have hi' : i < workload.length := hlength ▸ hi
  have hreads := hget i hi hi'
  rw [programAt, List.getD_eq_getElem?_getD, List.getElem?_eq_getElem hi', Option.getD_some]
  rw [← hrow]
  exact hreads

/-- In every state of a run of a loaded file, the ids that the file lists for an
    issued instruction have retired, where its column is unambiguous. -/
theorem listed_retired_of_issued {path : String} {content : List Char}
    {config : SimulatorConfig} {k : ℕ} {s : SimState}
    (hload : loadWorkloadCsv path (some content) = .ok workload)
    (hrun : ReachesIn workload config k s) {i : ℕ} {row : List Char}
    (hrow : (dataRows content)[i]? = some row) (hissued : s.Issued i)
    (hclear : Unambiguous (writtenIds (dataRows content)) (column row 4)) :
    ∀ id ∈ listedIds (column row 4), (id = 0 → 0 ∈ writtenIds (dataRows content)) →
      id ∈ s.retiredIds := by
  have hloaded := loadWorkloadCsv_eq_ok.mp hload
  have hkeeps := (keepsDeps_iff (hloaded.reads_at hrow).deps).mpr hclear
  intro id hlisted hids
  have hdep := hkeeps.complete id hlisted hids
  rw [← (placed_of_reachesIn hrun).deps_eq] at hdep
  exact depsRetired_of_reachesIn hrun i (hissued.mono (by decide)) id hdep

end AccelSim
