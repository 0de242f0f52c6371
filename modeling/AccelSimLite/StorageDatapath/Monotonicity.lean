import AccelSimLite.StorageDatapath.Bottleneck
import AccelSimLite.StorageDatapath.QueueDepth
import Mathlib.Algebra.Order.BigOperators.Group.List
import Mathlib.Tactic.Positivity

/-!
# Easier workloads

Requests that are smaller, or that hit the cache where the others miss it, make no figure
of the summary worse: not the percentiles of the latency, and not the throughput.

## Main definitions

- `StorageDatapath.Config.Physical` — times and rates that a device can have
- `StorageDatapath.Eases` — one request asks for no more than the other

## Main results

- `StorageDatapath.Simulator.totalLatencies_le` — no latency is longer
- `StorageDatapath.Simulator.summarize_mono` — the summaries of two workloads
-/

namespace AccelSim

namespace StorageDatapath

/-- The device takes time for a request, and not longer for a hit than for a miss. -/
structure Config.Physical (config : Config) : Prop where
  bandwidth : 0 < config.memoryBandwidthBytesPerUs
  hit : 0 < config.cacheHitLatencyUs
  hit_le_miss : config.cacheHitLatencyUs ≤ config.cacheMissLatencyUs
  write : 0 < config.writeBaseLatencyUs
  penalty : 0 ≤ config.queuePenaltyUs

/-- The first request asks for no more than the second one. -/
structure Eases (easier harder : Request) : Prop where
  operation : easier.operation = harder.operation
  sizeBytes : easier.sizeBytes ≤ harder.sizeBytes
  cacheHit : harder.cacheHit = true → easier.cacheHit = true

namespace Simulator

variable {simulator : Simulator}

theorem serviceLatency_pos (h : simulator.config.Physical) (request : Request) :
    0 < simulator.serviceLatency request := by
  have hbandwidth := h.bandwidth
  have hhit := h.hit
  have hmiss := h.hit.trans_le h.hit_le_miss
  have hwrite := h.write
  rw [serviceLatency]
  cases request.operation with
  | read =>
    cases request.cacheHit <;> simp only [Bool.false_eq_true, if_true, if_false] <;> positivity
  | write => positivity

theorem serviceLatency_mono (h : simulator.config.Physical) {easier harder : Request}
    (heases : Eases easier harder) :
    simulator.serviceLatency easier ≤ simulator.serviceLatency harder := by
  have hsize : (easier.sizeBytes.toNat : ℚ) / simulator.config.memoryBandwidthBytesPerUs ≤
      harder.sizeBytes.toNat / simulator.config.memoryBandwidthBytesPerUs := by
    have hle := UInt64.le_iff_toNat_le.mp heases.sizeBytes
    have hbandwidth := h.bandwidth
    gcongr
  rw [serviceLatency, serviceLatency, heases.operation]
  cases harder.operation with
  | read =>
    have hmiss := h.hit_le_miss
    have hcache := heases.cacheHit
    dsimp only
    refine add_le_add ?_ hsize
    split_ifs <;> simp_all
  | write =>
    dsimp only
    linarith

theorem totalLatencyUs_pos (h : simulator.config.Physical) (i : ℕ) (request : Request) :
    0 < (simulator.result i request).totalLatencyUs := by
  have hservice := serviceLatency_pos h request
  have hpenalty := h.penalty
  simp only [result]
  positivity

/-- The latencies of a run. -/
def totalLatencies (simulator : Simulator) (requests : List Request) : List ℚ :=
  (simulator.run requests).map RequestResult.totalLatencyUs

/-- No latency of the easier workload is longer. -/
theorem totalLatencies_le (h : simulator.config.Physical) {easier harder : List Request}
    (heases : List.Forall₂ Eases easier harder) :
    List.Forall₂ (· ≤ ·) (simulator.totalLatencies easier) (simulator.totalLatencies harder) := by
  have hlength := heases.length_eq
  rw [List.forall₂_iff_get]
  refine ⟨by simp [totalLatencies, length_run, hlength], fun i hi hi' => ?_⟩
  have hi₁ : i < easier.length := by simpa [totalLatencies, length_run] using hi
  have hi₂ : i < harder.length := hlength ▸ hi₁
  have hrequest := (List.forall₂_iff_get.mp heases).2 i hi₁ hi₂
  simp only [totalLatencies, List.get_eq_getElem, List.getElem_map, run_eq, List.getElem_mapIdx,
    result]
  exact add_le_add_right (serviceLatency_mono h hrequest) _

/-- Numbers that are not larger have percentiles that are not larger. -/
theorem percentile_mono {values values' : List ℚ} (h : List.Forall₂ (· ≤ ·) values values')
    {p : ℚ} (hp : p ∈ Set.Icc (0 : ℚ) 1) :
    ∃ v v', percentile values p = some v ∧ percentile values' p = some v' ∧ v ≤ v' := by
  by_cases hne : values = []
  · subst hne
    rw [List.forall₂_nil_left_iff] at h
    subst h
    exact ⟨0, 0, rfl, rfl, le_rfl⟩
  · have hne' : values' ≠ [] := by
      rw [← List.length_pos_iff, ← h.length_eq]
      exact List.length_pos_iff.mpr hne
    obtain ⟨v, hv⟩ := Option.isSome_iff_exists.mp (percentileLaws.isSome values hne p hp)
    obtain ⟨v', hv'⟩ := Option.isSome_iff_exists.mp (percentileLaws.isSome values' hne' p hp)
    exact ⟨v, v', hv, hv',
      percentileLaws.mono_values values values' hne ⟨values', .refl _, h⟩ p hp v hv v' hv'⟩

/-- The time of the easier workload is not longer, and not zero unless there is nothing to
    do. -/
theorem sum_totalLatencies (h : simulator.config.Physical) {easier harder : List Request}
    (heases : List.Forall₂ Eases easier harder) :
    (simulator.totalLatencies easier).sum ≤ (simulator.totalLatencies harder).sum ∧
      (easier ≠ [] → 0 < (simulator.totalLatencies easier).sum) := by
  refine ⟨(totalLatencies_le h heases).sum_le_sum, fun hne => ?_⟩
  refine List.sum_pos _ (fun latency hlatency => ?_) ?_
  · obtain ⟨r, hr, rfl⟩ := List.mem_map.mp hlatency
    obtain ⟨i, request, -, rfl⟩ := (simulator.mem_run).mp hr
    exact totalLatencyUs_pos h i request
  · rw [totalLatencies, Ne, List.map_eq_nil_iff, ← List.length_eq_zero_iff, length_run,
      List.length_eq_zero_iff]
    exact hne

/-- A summary is no worse than the other. -/
structure NoWorse (better worse : Summary) : Prop where
  totalRequests : better.totalRequests = worse.totalRequests
  readRequests : better.readRequests = worse.readRequests
  cacheMisses : better.cacheMisses ≤ worse.cacheMisses
  maxObservedQueueDepth : better.maxObservedQueueDepth = worse.maxObservedQueueDepth
  throughput : worse.throughputRequestsPerSec ≤ better.throughputRequestsPerSec
  p50 : better.p50LatencyUs ≤ worse.p50LatencyUs
  p95 : better.p95LatencyUs ≤ worse.p95LatencyUs
  p99 : better.p99LatencyUs ≤ worse.p99LatencyUs

theorem countP_le_of_forall₂ {easier harder : List Request}
    (heases : List.Forall₂ Eases easier harder) :
    (easier.countP fun request => !request.cacheHit) ≤
        (harder.countP fun request => !request.cacheHit) ∧
      (easier.countP fun request => request.operation = .read) =
        harder.countP fun request => request.operation = .read := by
  induction heases with
  | nil => exact ⟨le_rfl, rfl⟩
  | @cons a b easier harder hhead _ ih =>
    have hcache := hhead.cacheHit
    simp only [List.countP_cons, hhead.operation, ih.2, and_true]
    have hmiss : (if (!a.cacheHit) = true then 1 else 0) ≤
        (if (!b.cacheHit) = true then 1 else 0) := by
      cases ha : a.cacheHit <;> cases hb : b.cacheHit <;> simp_all
    exact Nat.add_le_add ih.1 hmiss

/-- **Easier workloads have better summaries.** Where a device takes time for a request, and no
    longer for a hit than for a miss, a workload in which each request is of the same kind, not
    larger, and a hit where the other is one, has no percentile of the latency longer and no
    smaller throughput. -/
theorem summarize_mono (simulator : Simulator) (h : simulator.config.Physical)
    {easier harder : List Request} (heases : List.Forall₂ Eases easier harder) :
    ∃ better worse, simulator.summarize easier (simulator.run easier) = some better ∧
      simulator.summarize harder (simulator.run harder) = some worse ∧ NoWorse better worse := by
  have hlatencies := totalLatencies_le h heases
  obtain ⟨p50, p50', hp50, hp50', hle50⟩ := percentile_mono hlatencies
    (show (50 / 100 : ℚ) ∈ Set.Icc (0 : ℚ) 1 by norm_num)
  obtain ⟨p95, p95', hp95, hp95', hle95⟩ := percentile_mono hlatencies
    (show (95 / 100 : ℚ) ∈ Set.Icc (0 : ℚ) 1 by norm_num)
  obtain ⟨p99, p99', hp99, hp99', hle99⟩ := percentile_mono hlatencies
    (show (99 / 100 : ℚ) ∈ Set.Icc (0 : ℚ) 1 by norm_num)
  obtain ⟨hmisses, hreads⟩ := countP_le_of_forall₂ heases
  have hlength := heases.length_eq
  rw [totalLatencies] at hp50 hp50' hp95 hp95' hp99 hp99'
  simp only [summarize, hp50, hp50', hp95, hp95', hp99, hp99']
  refine ⟨_, _, rfl, rfl, ?_⟩
  constructor
  case totalRequests => exact hlength
  case readRequests => exact hreads
  case cacheMisses => exact hmisses
  case maxObservedQueueDepth => simp only [map_queueDepth_run, hlength]
  case throughput =>
    obtain ⟨hsum, hpos⟩ := sum_totalLatencies h heases
    rw [totalLatencies, totalLatencies] at hsum
    rw [totalLatencies] at hpos
    simp only [length_run, hlength]
    by_cases hne : easier = []
    · have hnil : harder = [] := List.length_eq_zero_iff.mp (by rw [← hlength, hne]; rfl)
      subst hne hnil
      exact le_rfl
    · have hlong := (hpos hne).trans_le hsum
      rw [if_neg (hpos hne).ne', if_neg hlong.ne']
      have hshort := hpos hne
      gcongr
  case p50 => exact hle50
  case p95 => exact hle95
  case p99 => exact hle99

end Simulator

/-- The device of the command line. -/
theorem physical_default : Config.Physical {} := by
  constructor <;> norm_num

/-- The workload of the test of the cache pressure, with a cache that holds all of it. -/
def warmCache : List Request :=
  cachePressureTest.map fun request => { request with cacheHit := true }

theorem summarize_mono_warmCache :
    ∃ better worse,
      (Simulator.mk {}).summarize warmCache ((Simulator.mk {}).run warmCache) = some better ∧
        (Simulator.mk {}).summarize cachePressureTest
          ((Simulator.mk {}).run cachePressureTest) = some worse ∧
        Simulator.NoWorse better worse := by
  refine (Simulator.mk {}).summarize_mono physical_default ?_
  rw [warmCache, List.forall₂_map_left_iff]
  exact List.forall₂_same.mpr fun request _ => ⟨rfl, UInt64.le_refl _, fun _ => rfl⟩

end StorageDatapath

end AccelSim
