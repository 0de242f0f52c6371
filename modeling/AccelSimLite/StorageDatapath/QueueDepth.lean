import AccelSimLite.StorageDatapath.Defs
import Mathlib.Algebra.Order.Field.Rat
import Mathlib.Data.Nat.Cast.Order.Ring
import Mathlib.Tactic.GCongr
import Mathlib.Tactic.NormNum

/-!
# The queue of the storage simulator

The queue in front of a request is as deep as its position in the workload, up to the
configured depth, and the request waits for those before it. With a depth of zero the
unsigned subtraction that leaves out the request itself wraps around.

## Main definitions

- `StorageDatapath.Simulator.result` — the result of a request by its position
- `StorageDatapath.Simulator.SoundDelays` — delays without wrap-around, in order and bounded

## Main results

- `StorageDatapath.Simulator.run_eq` — the loop gives every request the result of its position
- `StorageDatapath.Simulator.soundDelays_iff` — the configurations whose delays are sound
-/

namespace AccelSim

namespace StorageDatapath

namespace Simulator

variable (simulator : Simulator)

/-- The result of the request with index `i`. -/
def result (i : ℕ) (request : Request) : RequestResult :=
  let queueDepth := min (i + 1) simulator.config.maxQueueDepth
  let queueDelay := depthBelow queueDepth * simulator.config.queuePenaltyUs
  { id := request.id
    queueDelayUs := queueDelay
    serviceLatencyUs := simulator.serviceLatency request
    totalLatencyUs := queueDelay + simulator.serviceLatency request
    queueDepth := queueDepth
    cacheHit := request.cacheHit }

@[simp] theorem queueDepth_result (i : ℕ) (request : Request) :
    (simulator.result i request).queueDepth = min (i + 1) simulator.config.maxQueueDepth := rfl

theorem results_runStep (s : RunState) (request : Request) :
    (simulator.runStep s request).results = s.results ++ [simulator.result s.i request] := rfl

theorem i_runStep (s : RunState) (request : Request) :
    (simulator.runStep s request).i = s.i + 1 := rfl

theorem foldl_runStep (requests : List Request) (s : RunState) :
    (requests.foldl simulator.runStep s).results =
      s.results ++ requests.mapIdx fun j request => simulator.result (s.i + j) request := by
  induction requests generalizing s with
  | nil => simp
  | cons request requests ih =>
    have hshift (j : ℕ) : s.i + 1 + j = s.i + (j + 1) := by omega
    rw [List.foldl_cons, ih, List.mapIdx_cons, results_runStep, i_runStep, List.append_assoc,
      List.singleton_append]
    simp only [hshift, Nat.add_zero]

/-- The loop gives every request the result of its position. -/
theorem run_eq (requests : List Request) :
    simulator.run requests = requests.mapIdx simulator.result := by
  rw [run, foldl_runStep]
  simp

theorem length_run (requests : List Request) :
    (simulator.run requests).length = requests.length := by
  rw [run_eq, List.length_mapIdx]

theorem getElem?_run (requests : List Request) (i : ℕ) :
    (simulator.run requests)[i]? = requests[i]?.map (simulator.result i) := by
  rw [run_eq, List.getElem?_mapIdx]

theorem mem_run {requests : List Request} {r : RequestResult} :
    r ∈ simulator.run requests ↔
      ∃ i request, requests[i]? = some request ∧ r = simulator.result i request := by
  simp only [List.mem_iff_getElem?, getElem?_run, Option.map_eq_some_iff]
  constructor
  · rintro ⟨i, request, hrequest, rfl⟩
    exact ⟨i, request, hrequest, rfl⟩
  · rintro ⟨i, request, hrequest, rfl⟩
    exact ⟨i, request, hrequest, rfl⟩

/-! ### The subtraction -/

theorem depthBelow_of_pos {queueDepth : ℕ} (hpos : 0 < queueDepth) (hlt : queueDepth < sizeMod) :
    depthBelow queueDepth = queueDepth - 1 := by
  have hsum : queueDepth + (sizeMod - 1) = queueDepth - 1 + sizeMod := by omega
  rw [depthBelow, hsum, Nat.add_mod_right, Nat.mod_eq_of_lt (by omega)]

theorem depthBelow_zero : depthBelow 0 = sizeMod - 1 := by decide

/-- A request waits for those before it, as many of them as fit into the queue. -/
theorem queueDelayUs_result (hdepth : 1 ≤ simulator.config.maxQueueDepth) (i : ℕ)
    (request : Request) :
    (simulator.result i request).queueDelayUs =
      (min i (simulator.config.maxQueueDepth - 1) : ℕ) * simulator.config.queuePenaltyUs := by
  have hlt := simulator.config.maxQueueDepth_lt
  have hbelow : depthBelow (min (i + 1) simulator.config.maxQueueDepth) =
      min i (simulator.config.maxQueueDepth - 1) := by
    rw [depthBelow_of_pos (by omega) (by omega)]
    omega
  rw [result, hbelow]

/-! ### The delays -/

/-- The subtraction does not wrap, and the delays are in order and bounded. -/
structure SoundDelays (requests : List Request) : Prop where
  exact : ∀ r ∈ simulator.run requests, (depthBelow r.queueDepth : ℤ) = r.queueDepth - 1
  ordered : ((simulator.run requests).map RequestResult.queueDelayUs).Pairwise (· ≤ ·)
  bounded : ∀ r ∈ simulator.run requests, r.queueDelayUs ≤
    max 0 ((simulator.config.maxQueueDepth : ℚ) - 1) * simulator.config.queuePenaltyUs
  position : ∀ i : ℕ, ∀ r ∈ (simulator.run requests)[i]?,
    r.queueDelayUs ≤ i * simulator.config.queuePenaltyUs

theorem soundDelays_of_pos {requests : List Request}
    (hpenalty : 0 ≤ simulator.config.queuePenaltyUs)
    (hdepth : 1 ≤ simulator.config.maxQueueDepth) : simulator.SoundDelays requests := by
  have hlt := simulator.config.maxQueueDepth_lt
  constructor
  · intro r hr
    obtain ⟨i, request, -, rfl⟩ := simulator.mem_run.mp hr
    have hpos : 0 < min (i + 1) simulator.config.maxQueueDepth := by omega
    rw [queueDepth_result, depthBelow_of_pos hpos (by omega)]
    omega
  · rw [run_eq, List.pairwise_iff_getElem]
    intro i j hi hj hij
    simp only [List.getElem_map, List.getElem_mapIdx, simulator.queueDelayUs_result hdepth]
    gcongr
  · intro r hr
    obtain ⟨i, request, -, rfl⟩ := simulator.mem_run.mp hr
    rw [simulator.queueDelayUs_result hdepth]
    refine mul_le_mul_of_nonneg_right (le_max_of_le_right ?_) hpenalty
    rw [← Nat.cast_pred hdepth]
    exact_mod_cast Nat.min_le_right _ _
  · intro i r hr
    rw [getElem?_run] at hr
    obtain ⟨request, -, rfl⟩ := Option.map_eq_some_iff.mp hr
    rw [simulator.queueDelayUs_result hdepth]
    refine mul_le_mul_of_nonneg_right ?_ hpenalty
    exact_mod_cast Nat.min_le_left _ _

/-- The delays are sound exactly for a queue of some depth, and in the empty run. -/
theorem soundDelays_iff (requests : List Request)
    (hpenalty : 0 ≤ simulator.config.queuePenaltyUs) :
    simulator.SoundDelays requests ↔
      1 ≤ simulator.config.maxQueueDepth ∨ requests = [] := by
  constructor
  · intro hsound
    by_contra hnot
    obtain ⟨hdepth, hne⟩ := not_or.mp hnot
    obtain ⟨request, rest, rfl⟩ := List.exists_cons_of_ne_nil hne
    -- the first request already finds the depth 0
    have hmem : simulator.result 0 request ∈ simulator.run (request :: rest) :=
      simulator.mem_run.mpr ⟨0, request, rfl, rfl⟩
    have hzero : (simulator.result 0 request).queueDepth = 0 := by
      rw [queueDepth_result]
      omega
    have hexact := hsound.exact _ hmem
    rw [hzero, depthBelow_zero] at hexact
    norm_num at hexact
  · rintro (hdepth | rfl)
    · exact simulator.soundDelays_of_pos hpenalty hdepth
    · constructor
      · intro r hr
        cases hr
      · exact .nil
      · intro r hr
        cases hr
      · intro i r hr
        cases hr

end Simulator

/-- The configuration of the command line tool, and one request. -/
theorem soundDelays_iff_default :
    (0 : ℚ) ≤ 3 / 2 ∧
      ((Simulator.mk {}).SoundDelays [⟨1, .read, 10, 4096, true⟩] ↔
        1 ≤ (Simulator.mk {}).config.maxQueueDepth ∨
          [(⟨1, .read, 10, 4096, true⟩ : Request)] = []) := by
  have hpenalty : (0 : ℚ) ≤ 3 / 2 := by norm_num
  exact ⟨hpenalty, (Simulator.mk {}).soundDelays_iff _ hpenalty⟩

/-- With a depth of zero the first request waits for `2 ^ 64 - 1` others. -/
theorem queueDelayUs_depthZero :
    ((Simulator.mk { maxQueueDepth := 0 }).run [⟨1, .read, 10, 4096, true⟩]).map
        RequestResult.queueDelayUs = [18446744073709551615 * (3 / 2)] ∧
      ¬(Simulator.mk { maxQueueDepth := 0 }).SoundDelays [⟨1, .read, 10, 4096, true⟩] := by
  refine ⟨?_, ?_⟩
  · norm_num [Simulator.run, Simulator.runStep, Simulator.depthBelow]
  · intro hsound
    have hexact := hsound.exact _ List.mem_cons_self
    exact absurd hexact (by decide)

end StorageDatapath

end AccelSim
