import AccelSimLite.Simulator.ExactTermination
import AccelSimLite.Simulator.Monotonicity

/-!
# How bad an anomaly can be

A greedy schedule on more hardware can be slower. But whatever a run has waited for, every
run of the same workload on no more hardware has to make time for as well: the widths let
in only so many instructions in a cycle, the units do only so much work, and the chains of
dependencies are the same. So an anomaly costs at most a constant factor.

## Main definitions

- `FrontEndWithin` — how far the front end is at most
- `SimulatorConfig.NoNarrower` — one machine has at least the hardware of the other

## Main results

- `ReachesIn.length_le_frontWidth`, `ReachesIn.length_le_issueWidth` — a run has time for its
  instructions to pass the widths
- `unblocked_of_capacity` — queues that hold the workload are never full
- `anomaly_bound` — more hardware is slower by at most a constant factor
-/

namespace AccelSim

/-! ### What every run takes -/

/-- How far the front end is at most, at its widths. -/
structure FrontEndWithin (config : SimulatorConfig) (s : SimState) : Prop where
  fetched : s.nextToFetch ≤ config.fetchWidth * s.cycle
  decoded : s.decoded ≤ min config.fetchWidth config.decodeWidth * (s.cycle - 1)
  entered : s.entered ≤ config.frontWidth * (s.cycle - 2)

/-- To take at most `w` from what is in front of a queue at a time is to be a cycle behind it,
    or slower. -/
theorem falls_behind {v w c before after room : ℕ} (hbefore : before ≤ v * c)
    (hafter : after ≤ min v w * (c - 1)) (hle : after ≤ before) (hroom : room ≤ w) :
    after + min room (before - after) ≤ min v w * c := by
  cases c with
  | zero => omega
  | succ c =>
    rw [Nat.add_sub_cancel] at hafter
    rcases Nat.le_total v w with hv | hw
    · rw [min_eq_left hv]
      omega
    · rw [min_eq_right hw] at hafter ⊢
      rw [Nat.mul_succ]
      omega

theorem Iteration.frontEndWithin {workload : List Instruction} {config : SimulatorConfig}
    {s t s' : SimState} (it : Iteration workload config s t s') (ho : InOrder s)
    (h : FrontEndWithin config s) : FrontEndWithin config s' := by
  have hlen := ho.length_le
  constructor
  case fetched =>
    have hold := h.fetched
    rw [it.cycle_finish, it.nextToFetch_finish, Nat.mul_succ]
    omega
  case decoded =>
    have hle : s.decoded ≤ s.nextToFetch := Nat.sub_le _ _
    have hnext := falls_behind h.fetched h.decoded hle le_rfl
    have hleft : s.nextToFetch - s.decoded = s.fetchQ.length := by
      unfold SimState.decoded
      omega
    rw [hleft] at hnext
    rwa [it.cycle_finish, Nat.add_sub_cancel, it.decoded_finish ho]
  case entered =>
    have hle : s.entered ≤ s.decoded := Nat.sub_le _ _
    have hroom : dispatchRoom config (afterIssue config t) ≤ config.dispatchWidth :=
      min_le_left _ _
    have hwidth : config.frontWidth =
        min (min config.fetchWidth config.decodeWidth) config.dispatchWidth :=
      (min_assoc _ _ _).symm
    have hold := h.entered
    rw [hwidth] at hold
    have hnext := falls_behind (c := s.cycle - 1) h.decoded hold hle hroom
    have hleft : s.decoded - s.entered = s.decodeQ.length := by
      unfold SimState.decoded SimState.entered
      omega
    rw [hleft, ← hwidth] at hnext
    rwa [it.cycle_finish, it.entered_finish ho]

namespace ReachesIn

variable {workload : List Instruction} {config : SimulatorConfig} {k : ℕ} {s : SimState}

theorem frontEndWithin (h : ReachesIn workload config k s) : FrontEndWithin config s := by
  refine h.keeps (FrontEndWithin config) ⟨?_, ?_, ?_⟩
    fun _ _ _ _ hu _ it ih => it.frontEndWithin (inOrder_of_reachesIn hu) ih
  · exact Nat.zero_le _
  · exact Nat.zero_le _
  · exact Nat.zero_le _

/-- The front end needs time for all instructions before the last of them can be issued. -/
theorem length_le_frontWidth (h : ReachesIn workload config k s) (hexit : hasWorkLeft s = false) :
    workload.length ≤ config.frontWidth * (k - 5) := by
  rcases Nat.eq_zero_or_pos workload.length with hnone | hpos
  · rw [hnone]
    exact Nat.zero_le _
  · have hlast : workload.length - 1 < workload.length := Nat.sub_lt hpos Nat.one_pos
    have htimed := h.timestamps_of_exit hexit hlast
    have hticks := (s.instr (workload.length - 1)).one_le_ticks
    have ht : (s.instr (workload.length - 1)).issueCycle < k := by omega
    obtain ⟨u, it⟩ := h.iteration_at ht
    have hissued := (h.issued_at_iff hexit hlast ht).mpr (Nat.lt_succ_self _)
    have hready : (AccelSim.stateAfter workload config
        ((s.instr (workload.length - 1)).issueCycle + 1)).Reached .ready (workload.length - 1) :=
      hissued.mono (by decide)
    have hentered := it.reached_dispatch_of_ready hready
    have hbefore := h.stateAfter ht.le
    rw [(inOrder_of_reachesIn hbefore).reached_dispatch_iff (placed_of_reachesIn hbefore)]
      at hentered
    have hwithin := hbefore.frontEndWithin.entered
    rw [hbefore.cycle_eq] at hwithin
    calc workload.length ≤ _ := Nat.le_of_pred_lt hentered
      _ ≤ config.frontWidth * ((s.instr (workload.length - 1)).issueCycle - 2) := hwithin
      _ ≤ config.frontWidth * (k - 5) := Nat.mul_le_mul_left _ (by omega)

/-- No cycle issues more than the issue width, and the first issues are in cycle three. -/
theorem length_le_issueWidth (h : ReachesIn workload config k s) (hexit : hasWorkLeft s = false) :
    workload.length ≤ config.issueWidth * (k - 5) := by
  have hp := placed_of_reachesIn h
  have hshared : ∀ t ∈ (Finset.range workload.length).image fun i => (s.instr i).issueCycle,
      ((Finset.range workload.length).filter fun i => (s.instr i).issueCycle = t).card ≤
        config.issueWidth := by
    intro t _
    have hle := h.issueCycle_shared_le hexit t
    rw [s.countP_instructions, hp.length_eq] at hle
    refine le_of_eq_of_le ?_ hle
    rw [← List.toFinset_card_of_nodup (List.nodup_range.filter _)]
    congr 1
    ext i
    simp
  have hspan : ((Finset.range workload.length).image fun i => (s.instr i).issueCycle) ⊆
      Finset.Ico 3 (k - 2) := by
    intro t ht
    obtain ⟨i, hi, rfl⟩ := Finset.mem_image.mp ht
    have htimed := h.timestamps_of_exit hexit (Finset.mem_range.mp hi)
    have hticks := (s.instr i).one_le_ticks
    rw [Finset.mem_Ico]
    omega
  calc workload.length = (Finset.range workload.length).card := (Finset.card_range _).symm
    _ ≤ config.issueWidth * _ := Finset.card_le_mul_card_image _ _ hshared
    _ ≤ config.issueWidth * (Finset.Ico 3 (k - 2)).card :=
        Nat.mul_le_mul_left _ (Finset.card_le_card hspan)
    _ = config.issueWidth * (k - 5) := by
        rw [Nat.card_Ico, Nat.sub_sub]

/-- A chain of dependencies and the pipeline around it. -/
theorem chain_le (h : ReachesIn workload config k s) (hexit : hasWorkLeft s = false)
    (hids : (workload.map fun i => i.id).Nodup) {chain : List ℕ} (hne : chain ≠ [])
    (hmem : ∀ i ∈ chain, i < workload.length) (hchain : IsDependencyChain workload chain) :
    4 + chain.length + ticksOf workload chain ≤ k := by
  have hp := placed_of_reachesIn h
  have hdone : ∀ i, i < workload.length → i < s.nextToFetch ∧ (s.instr i).stage = .done := by
    intro i hi
    rw [← SimState.mem_doneList, (hp.doneList_of_exit hexit).mem_iff, List.mem_range]
    exact hi
  obtain ⟨i, rest, rfl⟩ := List.exists_cons_of_ne_nil hne
  have hi := hmem i List.mem_cons_self
  obtain ⟨j, hj, hle⟩ := chain_le_completeCycle hp (timed_of_reachesIn h)
    (issuedAfterDeps_of_reachesIn hids h) hdone i rest hi hchain
  have hfirst := h.timestamps_of_exit hexit hi
  have hlast := h.timestamps_of_exit hexit hj
  rw [List.length_cons]
  omega

end ReachesIn

/-! ### Queues that hold the workload -/

/-- Two queues hold different instructions of the workload. -/
theorem Placed.length_add_le {workload : List Instruction} {s : SimState}
    (h : Placed workload s) {a b : Stage} (hab : a ≠ b) :
    (s.queueOf a).length + (s.queueOf b).length ≤ workload.length := by
  have hapart : (s.queueOf a ++ s.queueOf b).Nodup := by
    refine List.nodup_append.mpr ⟨h.nodup a, h.nodup b, fun i hi j hj hij => hab ?_⟩
    subst hij
    exact ((h.mem_iff a i).mp hi).2.symm.trans ((h.mem_iff b i).mp hj).2
  have hrange : s.queueOf a ++ s.queueOf b ⊆ List.range workload.length := by
    intro i hi
    rw [List.mem_range]
    rcases List.mem_append.mp hi with hi | hi
    · exact ((h.mem_iff a i).mp hi).1.trans_le h.next_le
    · exact ((h.mem_iff b i).mp hi).1.trans_le h.next_le
  have hle := (hapart.subperm hrange).length_le
  rwa [List.length_append, List.length_range] at hle

namespace Iteration

variable {workload : List Instruction} {config : SimulatorConfig} {s t s' : SimState}

theorem readyQueueFull_not_mem (it : Iteration workload config s t s')
    (hroom : workload.length ≤ config.readyQueueCapacity) :
    .readyQueueFull ∉ dispatchStalls config t := by
  intro hmem
  obtain ⟨⟨i, reason⟩, hrefused, rfl⟩ := List.mem_map.mp hmem
  obtain ⟨pre, post, hsplit, hv⟩ := Admission.mem_refused_split hrefused
  -- the queue has grown by at most one for each entry in front of `i`
  have hsize := Admission.final_eq_add_sum (r := t.readyQ.length) (l := pre)
    (fun size => size) (fun _ => 1)
    fun size i size' (hv : dispatchVisit config t size i = _) => (dispatchVisit_ok_iff.mp hv).2.2
  rw [List.map_const', List.sum_replicate_nat, Nat.mul_one] at hsize
  have hpre : (Admission.taken (dispatchVisit config t) t.readyQ.length pre).length ≤ pre.length :=
    (Admission.taken_sublist _ _).length_le
  have hboth : t.readyQ.length + t.dispatchQ.length ≤ workload.length :=
    it.started.length_add_le (a := .ready) (b := .dispatch) (by decide)
  rw [hsplit, List.length_append, List.length_cons] at hboth
  generalize Admission.final (dispatchVisit config t) t.readyQ.length pre = size at hsize hv
  unfold dispatchVisit at hv
  split_ifs at hv with _ hfull
  · omega
  · cases hv

theorem enteringStalls_eq_nil (it : Iteration workload config s t s')
    (hroom : workload.length ≤ config.dispatchQueueCapacity) :
    enteringStalls config (afterIssue config t) = [] := by
  have hboth : s.dispatchQ.length + s.decodeQ.length ≤ workload.length :=
    it.placed.length_add_le (a := .dispatch) (b := .decode) (by decide)
  have hheld : (dispatchHeld config t).length ≤ s.dispatchQ.length := by
    rw [← it.front_start.2.2.1]
    exact (Admission.kept_sublist _ _).length_le
  have hsame : (afterIssue config t).decodeQ = s.decodeQ := by
    rw [← it.front_start.2.1, afterIssue, issuePass_eq, afterDispatch, dispatchPass_eq]
    rfl
  rw [enteringStalls, hsame, dispatchRoom_afterIssue, if_neg (by omega)]

end Iteration

/-- **Queues that can hold the workload are never full.** -/
theorem unblocked_of_capacity {workload : List Instruction} {config : SimulatorConfig} {k : ℕ}
    {s : SimState} (h : ReachesIn workload config k s)
    (hdispatch : workload.length ≤ config.dispatchQueueCapacity)
    (hready : workload.length ≤ config.readyQueueCapacity) : s.Unblocked :=
  h.keeps SimState.Unblocked ⟨rfl, rfl⟩ fun _ _ _ _ _ _ it ih =>
    it.unblocked_iff.mpr ⟨ih, it.readyQueueFull_not_mem hready, it.enteringStalls_eq_nil hdispatch⟩

/-! ### The theorem -/

/-- The configuration takes and works off at least as much in a cycle as the other one. -/
structure SimulatorConfig.NoNarrower (config config' : SimulatorConfig) : Prop where
  fetchWidth : config'.fetchWidth ≤ config.fetchWidth
  decodeWidth : config'.decodeWidth ≤ config.decodeWidth
  dispatchWidth : config'.dispatchWidth ≤ config.dispatchWidth
  issueWidth : config'.issueWidth ≤ config.issueWidth
  units : ∀ memory, config'.units memory ≤ config.units memory

namespace SimulatorConfig.NoNarrower

variable {config config' : SimulatorConfig} {workload : List Instruction}

theorem frontWidth_le (h : config.NoNarrower config') : config'.frontWidth ≤ config.frontWidth :=
  min_le_min h.fetchWidth (min_le_min h.decodeWidth h.dispatchWidth)

theorem serves (h : config.NoNarrower config') (hserves : config'.Serves workload)
    (hready : 1 ≤ config.readyQueueCapacity) : config.Serves workload where
  fetchWidth := hserves.fetchWidth.trans h.fetchWidth
  decodeWidth := hserves.decodeWidth.trans h.decodeWidth
  dispatchWidth := hserves.dispatchWidth.trans h.dispatchWidth
  issueWidth := hserves.issueWidth.trans h.issueWidth
  readyQueueCapacity := hready
  units i hi := (hserves.units i hi).trans (h.units _)

end SimulatorConfig.NoNarrower

/-- Whatever a narrower machine can run to the end, a machine whose queues hold the workload
    can. -/
theorem ReachesIn.exists_exit {workload : List Instruction} {config config' : SimulatorConfig}
    {k : ℕ} {s : SimState} (h : ReachesIn workload config' k s) (hexit : hasWorkLeft s = false)
    (hids : (workload.map fun i => i.id).Nodup) (hne : workload ≠ [])
    (hnarrow : config.NoNarrower config')
    (hdispatch : workload.length ≤ config.dispatchQueueCapacity)
    (hready : workload.length ≤ config.readyQueueCapacity) :
    ∃ k s, ReachesIn workload config k s ∧ hasWorkLeft s = false := by
  have hnamed := h.depsNamed_of_exit hexit
  have hdone := (exists_exit_iff workload config' hids hnamed).mp ⟨k, s, h, hexit⟩
  obtain ⟨hserves, hacyclic, _⟩ := hdone.resolve_left hne
  refine (exists_exit_iff workload config hids hnamed).mpr (.inr ⟨?_, hacyclic, fun p hp => ?_⟩)
  · exact hnarrow.serves hserves ((List.length_pos_iff.mpr hne).trans_le hready)
  · exact (card_waiters_le workload p).trans_lt (hp.trans_le hdispatch)

/-- **An anomaly is bounded**: on at least as much hardware, and with queues that can hold
    the workload, a run that ends on the smaller machine ends as well, and within five times
    as many cycles. -/
theorem anomaly_bound (workload : List Instruction) (config config' : SimulatorConfig)
    (fuel : ℕ) (result : RunResult) (hids : (workload.map fun i => i.id).Nodup)
    (hne : workload ≠ []) (hnarrow : config.NoNarrower config')
    (hdispatch : workload.length ≤ config.dispatchQueueCapacity)
    (hready : workload.length ≤ config.readyQueueCapacity)
    (hrun : runWorkload fuel workload config' = .ok (some result)) :
    ∃ fuel' result', runWorkload fuel' workload config = .ok (some result') ∧
      result'.stats.totalCycles + 21 ≤ 5 * result.stats.totalCycles := by
  obtain ⟨k, s, _, h, hexit, rfl⟩ := runWorkload_eq_some_iff.mp hrun
  obtain ⟨k', s', h', hexit'⟩ := h.exists_exit hexit hids hne hnarrow hdispatch hready
  refine ⟨k', _, runWorkload_eq_some_iff.mpr ⟨k', s', le_rfl, h', hexit', rfl⟩, ?_⟩
  obtain ⟨chain, hchain, hmem, hdeps, hle⟩ := h'.exists_critical_chain hexit' hids
    (unblocked_of_capacity h' hdispatch hready) hne
  have hcycles : (resultOf config' s).stats.totalCycles = k := h.cycle_eq
  have hcycles' : (resultOf config s').stats.totalCycles = k' := h'.cycle_eq
  rw [hcycles, hcycles']
  -- each part of the bound is a part of the shorter run
  have hpath := h.chain_le hexit hids hchain hmem hdeps
  have hlength := List.length_pos_iff.mpr hne
  have hfront : (workload.length - 1) / config.frontWidth + 6 ≤ k := by
    have hpass := (h.length_le_frontWidth hexit).trans
      (Nat.mul_le_mul_right (k - 5) hnarrow.frontWidth_le)
    exact Nat.add_lt_of_lt_sub (Nat.div_lt_of_lt_mul (by omega))
  have hissue : workload.length / config.issueWidth ≤ k - 5 :=
    Nat.div_le_of_le_mul ((h.length_le_issueWidth hexit).trans
      (Nat.mul_le_mul_right _ hnarrow.issueWidth))
  have hunits : ∀ memory, ticksOfClass workload memory / config.units memory ≤ k - 5 :=
    fun memory => Nat.div_le_of_le_mul ((h.sum_ticks_le hexit memory).trans
      (Nat.mul_le_mul_right _ (hnarrow.units memory)))
  have hcompute : ticksOfClass workload false / config.computeUnits ≤ k - 5 := hunits false
  have hmemory : ticksOfClass workload true / config.memoryPorts ≤ k - 5 := hunits true
  generalize (workload.length - 1) / config.frontWidth = front at hle hfront
  generalize workload.length / config.issueWidth = issue at hle hissue
  generalize ticksOfClass workload false / config.computeUnits = compute at hle hcompute
  generalize ticksOfClass workload true / config.memoryPorts = memory at hle hmemory
  omega

/-- A second memory port makes this run slower. -/
theorem anomaly_bound_loadsBeforeCompute :
    ∃ result result' fuel', runWorkload 10 loadsBeforeCompute {} = .ok (some result) ∧
      runWorkload fuel' loadsBeforeCompute { memoryPorts := 2 } = .ok (some result') ∧
      result'.stats.totalCycles + 21 ≤ 5 * result.stats.totalCycles := by
  have hrun : ∃ result, runWorkload 10 loadsBeforeCompute {} = .ok (some result) := ⟨_, rfl⟩
  obtain ⟨result, hrun⟩ := hrun
  have hnarrow : SimulatorConfig.NoNarrower { memoryPorts := 2 } {} := by
    constructor <;> decide
  obtain ⟨fuel', result', hrun', hle⟩ := anomaly_bound loadsBeforeCompute { memoryPorts := 2 } {}
    10 result (by decide) (by decide) hnarrow (by decide) (by decide) hrun
  exact ⟨result, result', fuel', hrun, hrun', hle⟩

end AccelSim
