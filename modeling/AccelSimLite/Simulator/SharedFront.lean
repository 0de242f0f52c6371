import AccelSimLite.Simulator.Greedy
import AccelSimLite.Simulator.Monotonicity

/-!
# What follows does not matter

Two runs on one configuration, of workloads that begin alike with instructions without
dependencies. These keep their order on the way to the execute slots, so nothing behind them
takes a place from them: in every cycle the two runs agree on the front, whatever follows it.

## Main definitions

- `SharedFront` — the workloads begin with the same independent instructions
- `AgreeUpTo` — the states agree on these instructions
- `TwoRuns` — a cycle of both runs

## Main results

- `TwoRuns.step` — a cycle keeps the agreement
- `front_unaffected` — what follows the front changes nothing in it
-/

namespace AccelSim

/-- The workloads begin with the same `n` instructions, which wait for nothing. -/
structure SharedFront (n : ℕ) (w₁ w₂ : List Instruction) : Prop where
  length_le₁ : n ≤ w₁.length
  length_le₂ : n ≤ w₂.length
  programAt_eq : ∀ i, i < n → programAt w₁ i = programAt w₂ i
  deps_eq_nil : ∀ i, i < n → (programAt w₁ i).deps = []

/-- The states agree on the first `n` instructions. -/
structure AgreeUpTo (n : ℕ) (s₁ s₂ : SimState) : Prop where
  fetched : min n s₁.nextToFetch = min n s₂.nextToFetch
  instr : ∀ i, i < n → s₁.instr i = s₂.instr i

theorem SharedFront.symm {n : ℕ} {w₁ w₂ : List Instruction} (h : SharedFront n w₁ w₂) :
    SharedFront n w₂ w₁ :=
  ⟨h.length_le₂, h.length_le₁, fun i hi => (h.programAt_eq i hi).symm,
    fun i hi => h.programAt_eq i hi ▸ h.deps_eq_nil i hi⟩

theorem AgreeUpTo.symm {n : ℕ} {s₁ s₂ : SimState} (h : AgreeUpTo n s₁ s₂) : AgreeUpTo n s₂ s₁ :=
  ⟨h.fetched.symm, fun i hi => (h.instr i hi).symm⟩

theorem AgreeUpTo.reached_iff {n : ℕ} {s₁ s₂ : SimState} (h : AgreeUpTo n s₁ s₂) (st : Stage)
    {i : ℕ} (hi : i < n) : s₁.Reached st i ↔ s₂.Reached st i := by
  have hfetched := h.fetched
  rw [SimState.Reached, SimState.Reached, h.instr i hi]
  exact and_congr_left fun _ => by omega

/-- Nothing that a front instruction waits for is missing from what a later one waits for. -/
theorem SharedFront.nested {n : ℕ} {w₁ w₂ : List Instruction} (h : SharedFront n w₁ w₂) (j : ℕ) :
    NestedDeps w₁ fun i => i < n ∨ i = j := by
  intro a b hab _ ha hb
  have hfront : a < n := by omega
  rw [h.deps_eq_nil a hfront]
  exact List.nil_subset _

/-- A front instruction becomes ready before a later one. -/
theorem SharedFront.readyOrdered {n : ℕ} {w₁ w₂ : List Instruction} (h : SharedFront n w₁ w₂)
    {config : SimulatorConfig} {k : ℕ} {s : SimState} (hs : ReachesIn w₁ config k s) (j : ℕ) :
    ReadyOrdered (fun i => i < n ∨ i = j) s :=
  readyOrdered_of_reachesIn ((h.nested j).satisfiedInOrder config) hs

theorem min_eq_of_lt_iff {n a b : ℕ} (h : ∀ i, i < n → (i < a ↔ i < b)) : min n a = min n b := by
  have ha := h a
  have hb := h b
  omega

/-- An index has been decoded when it is below the number that have. -/
theorem InOrder.reached_decode_iff {workload : List Instruction} {s : SimState} (h : InOrder s)
    (hp : Placed workload s) (i : ℕ) : s.Reached .decode i ↔ i < s.decoded := by
  have hmem := hp.mem_queueOf_iff .fetch .decode rfl i
  have hlen := h.length_le
  rw [reached_fetch_iff] at hmem
  simp only [SimState.queueOf] at hmem
  rw [h.queues.2, List.mem_range'_1] at hmem
  have hfetched : s.Reached .decode i → i < s.nextToFetch := And.left
  unfold SimState.decoded at hmem ⊢
  constructor
  · intro hreached
    have hlt := hfetched hreached
    have hout := mt hmem.mp fun hout => hout.2 hreached
    omega
  · intro hlt
    by_contra hnot
    have hin := hmem.mpr ⟨by omega, hnot⟩
    omega

/-- What a cycle does to an instruction is known from the stage that it comes to. -/
theorem Advance.eq_of_stage {c : ℕ} {i i₁ i₂ : Instruction} (h₁ : Advance c i i₁)
    (h₂ : Advance c i i₂) (hstage : i₁.stage = i₂.stage) : i₁ = i₂ := by
  cases h₁ <;> cases h₂ <;>
    simp_all [setDecode, setDispatch, setReady, setExecute, setRetire, setDone]

/-- An entry that the issue pass holds meets a width that the entries in front of it have used
    up, or finds no unit of its class. -/
theorem Iteration.issue_full_before {workload : List Instruction} {config : SimulatorConfig}
    {s t s' : SimState} (it : Iteration workload config s t s') {i : ℕ}
    (hi : i ∈ (afterDispatch config t).readyQ)
    (hnot : i ∉ issueMoved config (afterDispatch config t)) :
    ∃ pre post, (afterDispatch config t).readyQ = pre ++ i :: post ∧
      (config.issueWidth ≤ (Admission.taken (issueVisit config (afterDispatch config t))
          (afterDispatch config t).issueUse pre).length ∨
        config.units (isMemoryOp (programAt workload i).type) ≤
          s'.inUse (isMemoryOp (programAt workload i).type)) := by
  have hnodup := it.nodup_readyQ_dispatched
  obtain ⟨pre, post, reason, hsplit, hv⟩ := Admission.exists_split_of_mem_kept hnodup
    ((Admission.mem_kept_iff hnodup).mpr ⟨hi, hnot⟩)
  refine ⟨pre, post, hsplit, ?_⟩
  by_contra hroom
  rw [not_or, not_le, not_le] at hroom
  have hissued : (Admission.final (issueVisit config (afterDispatch config t))
      (afterDispatch config t).issueUse pre).issued =
        (Admission.taken (issueVisit config (afterDispatch config t))
          (afterDispatch config t).issueUse pre).length :=
    issueFinal_issued config { afterDispatch config t with readyQ := pre }
  have hunits : (Admission.final (issueVisit config (afterDispatch config t))
      (afterDispatch config t).issueUse pre).inUse (isMemoryOp (programAt workload i).type) ≤
        s'.inUse (isMemoryOp (programAt workload i).type) := by
    rw [it.inUse_finish, issueFinal, hsplit, Admission.final_append]
    exact (IssueUse.le_iff.mp (Admission.le_final (issueVisit_grows config _) _ _)).2 _
  have hfree : (Admission.final (issueVisit config (afterDispatch config t))
      (afterDispatch config t).issueUse pre).inUse
        (isMemoryOp ((afterDispatch config t).instr i).type) <
      config.units (isMemoryOp ((afterDispatch config t).instr i).type) := by
    rw [it.dispatched.type_eq]
    exact hunits.trans_lt hroom.2
  have hok := issueVisit_ok_iff.mpr ⟨hissued.trans_lt hroom.1, hfree, rfl⟩
  rw [hv] at hok
  cases hok

/-- A cycle leaves alone what it does not fetch. -/
theorem Iteration.instr_of_unfetched {workload : List Instruction} {config : SimulatorConfig}
    {s t s' : SimState} (it : Iteration workload config s t s') {i : ℕ}
    (hi : s'.nextToFetch ≤ i) : s'.instr i = s.instr i := by
  have hnot : i ∉ fetching config (afterDecode config t) := by
    intro hmem
    have hlt := (mem_fetching.mp hmem).2
    rw [it.finish] at hi
    exact Nat.not_le.mpr hlt hi
  have hmark := (afterDecode config t).instr_markAll_of_not_mem
    (setFetch (afterDecode config t).cycle) hnot
  rw [it.instr_unfetched (it.nextToFetch_le.trans hi)] at hmark
  rw [it.finish, ← hmark]
  simp only [SimState.instr, afterFetch, fetchPass_eq]
  rfl

/-! ### One cycle -/

/-- Cycle `k` of two runs whose workloads share a front, on which the states agree when the
    cycle begins. -/
structure TwoRuns (config : SimulatorConfig) (n : ℕ) (w₁ w₂ : List Instruction) (k : ℕ)
    (s₁ t₁ s₁' s₂ t₂ s₂' : SimState) : Prop where
  before₁ : ReachesIn w₁ config k s₁
  before₂ : ReachesIn w₂ config k s₂
  after₁ : ReachesIn w₁ config (k + 1) s₁'
  after₂ : ReachesIn w₂ config (k + 1) s₂'
  it₁ : Iteration w₁ config s₁ t₁ s₁'
  it₂ : Iteration w₂ config s₂ t₂ s₂'
  front : SharedFront n w₁ w₂
  agree : AgreeUpTo n s₁ s₂

namespace TwoRuns

variable {config : SimulatorConfig} {n : ℕ} {w₁ w₂ : List Instruction} {k : ℕ}
  {s₁ t₁ s₁' s₂ t₂ s₂' : SimState}

theorem symm (b : TwoRuns config n w₁ w₂ k s₁ t₁ s₁' s₂ t₂ s₂') :
    TwoRuns config n w₂ w₁ k s₂ t₂ s₂' s₁ t₁ s₁' :=
  ⟨b.before₂, b.before₁, b.after₂, b.after₁, b.it₂, b.it₁, b.front.symm, b.agree.symm⟩

/-! #### Becoming ready -/

/-- The second run makes ready what the first does. -/
theorem ready (b : TwoRuns config n w₁ w₂ k s₁ t₁ s₁' s₂ t₂ s₂') {i : ℕ} (hi : i < n)
    (h : s₁'.Reached .ready i) : s₂'.Reached .ready i := by
  by_contra hnot
  have hnot₂ : ¬s₂.Reached .ready i := fun h => hnot (b.it₂.reached_mono h)
  have hclosed₁ := (b.front.readyOrdered b.after₁ i).closed
  have hwaits : i ∈ t₂.dispatchQ := by
    rw [b.it₂.mem_dispatchQ_start_iff, ← b.agree.reached_iff .dispatch hi]
    exact ⟨b.it₁.reached_dispatch_of_ready h, hnot₂⟩
  have hdeps : depsSatisfied (t₂.instr i) t₂.retiredIds = true := by
    rw [depsSatisfied_iff, b.it₂.started.deps_eq, b.front.symm.deps_eq_nil i hi]
    exact fun _ hdep => absurd hdep List.not_mem_nil
  have hheld : i ∉ dispatchMoved config t₂ := fun h =>
    hnot ((b.it₂.reached_iff .ready i).mpr (.inr h))
  -- so the ready queue of the second run is full, and holds less than that of the first
  have hfull := b.it₂.ready_full_of_held hwaits hheld hdeps
  have hsub : ∀ j ∈ (afterDispatch config t₂).readyQ, j ∈ (afterDispatch config t₁).readyQ := by
    intro j hj
    obtain ⟨hready, hissued⟩ := (b.it₂.mem_readyQ_dispatched_iff j).mp hj
    have hclosed₂ := (b.front.symm.readyOrdered b.after₂ j).closed
    have hji : j < i := by
      rcases Nat.lt_trichotomy i j with hij | rfl | hji
      · exact absurd (hclosed₂ i j hij (.inl hi) (.inr rfl) hready) hnot
      · exact absurd hready hnot
      · exact hji
    refine (b.it₁.mem_readyQ_dispatched_iff j).mpr
      ⟨hclosed₁ j i hji (.inl (hji.trans hi)) (.inl hi) h, ?_⟩
    rwa [SimState.Issued, b.agree.reached_iff .execute (hji.trans hi)]
  have hin : i ∈ (afterDispatch config t₁).readyQ := by
    refine (b.it₁.mem_readyQ_dispatched_iff i).mpr ⟨h, fun hissued => hnot₂ ?_⟩
    exact ((b.agree.reached_iff .execute hi).mp hissued).mono (by decide)
  have hout : i ∉ (afterDispatch config t₂).readyQ := fun h =>
    hnot ((b.it₂.mem_readyQ_dispatched_iff i).mp h).1
  have hless := length_lt_of_subset b.it₂.nodup_readyQ_dispatched hsub hout hin
  have hcap := b.it₁.length_readyQ_dispatched_le (withinCapacity_of_reachesIn b.before₁)
  omega

/-! #### Issue -/

/-- What is issued in this cycle is issued in the same cycle in both runs. -/
theorem issueCycle_eq (b : TwoRuns config n w₁ w₂ k s₁ t₁ s₁' s₂ t₂ s₂') {i : ℕ} (hi : i < n)
    (h₁ : s₁'.Issued i) (h₂ : s₂'.Issued i) :
    (s₁'.instr i).issueCycle = (s₂'.instr i).issueCycle := by
  have hagree := b.agree.reached_iff .execute hi
  by_cases hold : s₁.Issued i
  · rw [stamped_issue.kept b.it₁ i hold, stamped_issue.kept b.it₂ i (hagree.mp hold),
      b.agree.instr i hi]
  · rw [stamped_issue.fresh b.it₁ i hold h₁, stamped_issue.fresh b.it₂ i (mt hagree.mpr hold) h₂,
      b.before₁.cycle_eq, b.before₂.cycle_eq]

/-- What only the first run has issued has taken nothing that the second does not have. -/
theorem units_left (b : TwoRuns config n w₁ w₂ k s₁ t₁ s₁' s₂ t₂ s₂') {i : ℕ} (hi : i < n)
    (h : s₁'.Issued i) (hnot : ¬s₂'.Issued i) :
    s₂'.inUse (isMemoryOp (programAt w₂ i).type) <
      config.units (isMemoryOp (programAt w₂ i).type) := by
  have hp₁ := b.it₁.placed_finish
  have hp₂ := b.it₂.placed_finish
  have hprogram (j : ℕ) (hj : j < n) : (programAt w₁ j).type = (programAt w₂ j).type := by
    rw [b.front.programAt_eq j hj]
  generalize hclass : isMemoryOp (programAt w₂ i).type = memory
  have hsub : ∀ j ∈ s₂'.executing memory, j ∈ s₁'.executing memory := by
    intro j hj
    obtain ⟨⟨hissued₂, hbusy⟩, hjclass⟩ :=
      ((timed_of_reachesIn b.after₂).mem_executing_iff hp₂).mp hj
    have hji : j < i := by
      rcases Nat.lt_trichotomy i j with hij | rfl | hji
      · refine absurd (b.after₂.issueCycle_le_of_nested hij (hclass.trans hjclass.symm) ?_
          hissued₂).1 hnot
        rw [b.front.symm.deps_eq_nil i hi]
        exact List.nil_subset _
      · exact absurd hissued₂ hnot
      · exact hji
    have hjn := hji.trans hi
    have hissued₁ : s₁'.Issued j := by
      refine (b.after₁.issueCycle_le_of_nested hji ?_ ?_ h).1
      · rw [hprogram i hi, hprogram j hjn, hclass, hjclass]
      · rw [b.front.deps_eq_nil j hjn]
        exact List.nil_subset _
    refine ((timed_of_reachesIn b.after₁).mem_executing_iff hp₁).mpr
      ⟨⟨hissued₁, ?_⟩, by rw [hprogram j hjn, hjclass]⟩
    rw [((timed_of_reachesIn b.after₂).reached_iff hp₂ hissued₂).1, b.after₂.cycle_eq,
      hp₂.ticks_eq] at hbusy
    rwa [((timed_of_reachesIn b.after₁).reached_iff hp₁ hissued₁).1, b.after₁.cycle_eq,
      hp₁.ticks_eq, b.issueCycle_eq hjn hissued₁ hissued₂, b.front.programAt_eq j hjn]
  have hin : i ∈ s₁'.executing memory := by
    refine b.it₁.mem_executing_of_new (timed_of_reachesIn b.after₁)
      ⟨h.1.trans_le hp₁.next_le, by rw [hprogram i hi, hclass]⟩ (fun hold => hnot ?_) h
    exact b.it₂.reached_mono ((b.agree.reached_iff .execute hi).mp hold)
  have hout : i ∉ s₂'.executing memory := fun hmem =>
    hnot (((timed_of_reachesIn b.after₂).mem_executing_iff hp₂).mp hmem).1.1
  have hless := length_lt_of_subset (hp₂.nodup_executing memory) hsub hout hin
  have hused := (balanced_of_reachesIn b.after₁).inUse_le memory
  rw [(balanced_of_reachesIn b.after₁).inUse_eq, ← SimState.length_executing] at hused
  rw [(balanced_of_reachesIn b.after₂).inUse_eq, ← SimState.length_executing]
  omega

/-- The first run issues what the second does in front of the first instruction on which they
    differ, and that instruction besides. -/
theorem width_left (b : TwoRuns config n w₁ w₂ k s₁ t₁ s₁' s₂ t₂ s₂') {i : ℕ} (hi : i < n)
    (hbelow : ∀ j, j < i → s₂'.Issued j → s₁'.Issued j)
    (hmoved₁ : i ∈ issueMoved config (afterDispatch config t₁))
    (hheld : i ∉ issueMoved config (afterDispatch config t₂)) {pre post : List ℕ}
    (hsplit : (afterDispatch config t₂).readyQ = pre ++ i :: post) :
    (Admission.taken (issueVisit config (afterDispatch config t₂))
      (afterDispatch config t₂).issueUse pre).length < config.issueWidth := by
  generalize htaken : Admission.taken (issueVisit config (afterDispatch config t₂))
    (afterDispatch config t₂).issueUse pre = taken
  have hsublist : taken.Sublist pre := htaken ▸ Admission.taken_sublist _ _
  have hmoved : ∀ j ∈ taken, j ∈ issueMoved config (afterDispatch config t₂) := by
    intro j hj
    rw [issueMoved, hsplit, Admission.taken_append, htaken]
    exact List.mem_append_left _ hj
  have hsub : ∀ j ∈ taken, j ∈ issueMoved config (afterDispatch config t₁) := by
    intro j hj
    have hsorted := b.it₂.readyQ_dispatched_sorted (dispatchQ_sorted_of_reachesIn b.before₂)
      (b.front.symm.readyOrdered b.before₂ j)
    rw [hsplit, List.pairwise_append] at hsorted
    have hji := hsorted.2.2 j (hsublist.subset hj) i List.mem_cons_self (.inr rfl) (.inl hi)
    have hissued := hbelow j hji ((b.it₂.reached_iff .execute j).mpr (.inr (hmoved j hj)))
    refine ((b.it₁.reached_iff .execute j).mp hissued).resolve_left fun hold => ?_
    refine b.it₂.not_reached_of_movedTo .execute (hmoved j hj) ?_
    exact (b.agree.reached_iff .execute (hji.trans hi)).mp hold
  have hnodup : taken.Nodup :=
    (hsplit ▸ b.it₂.nodup_readyQ_dispatched).sublist
      (hsublist.trans (List.sublist_append_left _ _))
  have hless := length_lt_of_subset hnodup hsub (fun hin => hheld (hmoved i hin)) hmoved₁
  exact hless.trans_le (length_issueMoved_le config (afterDispatch config t₁))

/-- The first instruction on which the runs could differ is issued in the second run when it
    is in the first. -/
theorem issued_of_below (b : TwoRuns config n w₁ w₂ k s₁ t₁ s₁' s₂ t₂ s₂') {i : ℕ} (hi : i < n)
    (hbelow : ∀ j, j < i → s₂'.Issued j → s₁'.Issued j) (h : s₁'.Issued i) : s₂'.Issued i := by
  by_contra hnot
  have hold₁ : ¬s₁.Issued i := fun hold =>
    hnot (b.it₂.reached_mono ((b.agree.reached_iff .execute hi).mp hold))
  have hmoved₁ : i ∈ issueMoved config (afterDispatch config t₁) :=
    ((b.it₁.reached_iff .execute i).mp h).resolve_left hold₁
  have hheld : i ∉ issueMoved config (afterDispatch config t₂) := fun hmoved =>
    hnot ((b.it₂.reached_iff .execute i).mpr (.inr hmoved))
  have hwaits : i ∈ (afterDispatch config t₂).readyQ :=
    (b.it₂.mem_readyQ_dispatched_iff i).mpr
      ⟨b.ready hi (h.mono (by decide)), fun hold => hnot (b.it₂.reached_mono hold)⟩
  obtain ⟨pre, post, hsplit, hwidth | hunits⟩ := b.it₂.issue_full_before hwaits hheld
  · exact absurd (b.width_left hi hbelow hmoved₁ hheld hsplit) (Nat.not_lt.mpr hwidth)
  · exact absurd (b.units_left hi h hnot) (Nat.not_lt.mpr hunits)

/-- Both runs issue the same instructions of the front. -/
theorem issued_iff (b : TwoRuns config n w₁ w₂ k s₁ t₁ s₁' s₂ t₂ s₂') {i : ℕ} (hi : i < n) :
    s₁'.Issued i ↔ s₂'.Issued i := by
  induction i using Nat.strong_induction_on with
  | _ i ih =>
    exact ⟨b.issued_of_below hi fun j hj => (ih j hj (hj.trans hi)).mpr,
      b.symm.issued_of_below hi fun j hj => (ih j hj (hj.trans hi)).mp⟩

/-! #### The front end -/

theorem ready_iff (b : TwoRuns config n w₁ w₂ k s₁ t₁ s₁' s₂ t₂ s₂') {i : ℕ} (hi : i < n) :
    s₁'.Reached .ready i ↔ s₂'.Reached .ready i :=
  ⟨b.ready hi, b.symm.ready hi⟩

theorem decoded_before (b : TwoRuns config n w₁ w₂ k s₁ t₁ s₁' s₂ t₂ s₂') :
    min n s₁.decoded = min n s₂.decoded := by
  refine min_eq_of_lt_iff fun i hi => ?_
  rw [← (inOrder_of_reachesIn b.before₁).reached_decode_iff b.it₁.placed,
    ← (inOrder_of_reachesIn b.before₂).reached_decode_iff b.it₂.placed]
  exact b.agree.reached_iff .decode hi

theorem entered_before (b : TwoRuns config n w₁ w₂ k s₁ t₁ s₁' s₂ t₂ s₂') :
    min n s₁.entered = min n s₂.entered := by
  refine min_eq_of_lt_iff fun i hi => ?_
  rw [← (inOrder_of_reachesIn b.before₁).reached_dispatch_iff b.it₁.placed,
    ← (inOrder_of_reachesIn b.before₂).reached_dispatch_iff b.it₂.placed]
  exact b.agree.reached_iff .dispatch hi

theorem fetched (b : TwoRuns config n w₁ w₂ k s₁ t₁ s₁' s₂ t₂ s₂') :
    min n s₁'.nextToFetch = min n s₂'.nextToFetch := by
  have hagree := b.agree.fetched
  have hlen₁ := b.front.length_le₁
  have hlen₂ := b.front.length_le₂
  rw [b.it₁.nextToFetch_finish, b.it₂.nextToFetch_finish]
  omega

theorem decoded (b : TwoRuns config n w₁ w₂ k s₁ t₁ s₁' s₂ t₂ s₂') :
    min n s₁'.decoded = min n s₂'.decoded := by
  have ho₁ := inOrder_of_reachesIn b.before₁
  have ho₂ := inOrder_of_reachesIn b.before₂
  have hlen₁ := ho₁.length_le
  have hlen₂ := ho₂.length_le
  have hfetched := b.agree.fetched
  have hdecoded := b.decoded_before
  rw [b.it₁.decoded_finish ho₁, b.it₂.decoded_finish ho₂]
  unfold SimState.decoded at hdecoded ⊢
  omega

/-- The second run has entered into the dispatch queue what the first has. -/
theorem entered_le (b : TwoRuns config n w₁ w₂ k s₁ t₁ s₁' s₂ t₂ s₂')
    (hbelow : s₂'.entered < n) : s₁'.entered ≤ s₂'.entered := by
  by_contra hlt
  have ho₁ := inOrder_of_reachesIn b.before₁
  have ho₂ := inOrder_of_reachesIn b.before₂
  have hreached₁ := (inOrder_of_reachesIn b.after₁).reached_dispatch_iff b.it₁.placed_finish
  have hreached₂ := (inOrder_of_reachesIn b.after₂).reached_dispatch_iff b.it₂.placed_finish
  have hqueue₁ := b.it₁.placed_finish.mem_queueOf_iff .dispatch .ready rfl
  have hqueue₂ := b.it₂.placed_finish.mem_queueOf_iff .dispatch .ready rfl
  -- the dispatch queue of the second run is full, and lacks the next index
  have hless : s₂'.dispatchQ.length < s₁'.dispatchQ.length := by
    refine length_lt_of_subset (b.it₂.placed_finish.nodup .dispatch) (a := s₂'.entered) ?_ ?_ ?_
    · intro j hj
      obtain ⟨hdispatch, hready⟩ := (hqueue₂ j).mp hj
      rw [hreached₂] at hdispatch
      exact (hqueue₁ j).mpr ⟨(hreached₁ j).mpr (by omega), mt (b.ready (by omega)) hready⟩
    · intro h
      exact lt_irrefl _ ((hreached₂ _).mp ((hqueue₂ _).mp h).1)
    · refine (hqueue₁ _).mpr ⟨(hreached₁ _).mpr (Nat.lt_of_not_le hlt), fun h => ?_⟩
      exact lt_irrefl _ ((hreached₂ _).mp ((b.ready hbelow h).mono (by decide)))
  have hcap := (withinCapacity_of_reachesIn b.after₁).dispatch_le
  have hentered₁ := b.it₁.entered_finish ho₁
  have hentered₂ := b.it₂.entered_finish ho₂
  rw [Iteration.dispatchRoom_afterIssue] at hentered₁ hentered₂
  rw [b.it₂.dispatchQ_finish, Iteration.dispatchRoom_afterIssue, List.length_append,
    List.length_take] at hless
  have hlen₁ := ho₁.length_le
  have hlen₂ := ho₂.length_le
  have hdecoded := b.decoded_before
  have hentered := b.entered_before
  unfold SimState.decoded at hdecoded
  unfold SimState.entered at hentered hentered₁ hentered₂ hlt hbelow
  omega

theorem entered (b : TwoRuns config n w₁ w₂ k s₁ t₁ s₁' s₂ t₂ s₂') :
    min n s₁'.entered = min n s₂'.entered := by
  have hle₁ := b.entered_le
  have hle₂ := b.symm.entered_le
  omega

/-! #### All stages -/

/-- What both runs have issued in one cycle they complete, and retire, in one cycle. -/
theorem completed_iff (b : TwoRuns config n w₁ w₂ k s₁ t₁ s₁' s₂ t₂ s₂') {i : ℕ}
    (hi : i < n) : (s₁'.Reached .retire i ↔ s₂'.Reached .retire i) ∧
      (s₁'.Reached .done i ↔ s₂'.Reached .done i) := by
  have hp₁ := b.it₁.placed_finish
  have hp₂ := b.it₂.placed_finish
  by_cases h₁ : s₁'.Issued i
  · have h₂ := (b.issued_iff hi).mp h₁
    obtain ⟨hretire₁, hdone₁⟩ := (timed_of_reachesIn b.after₁).reached_iff hp₁ h₁
    obtain ⟨hretire₂, hdone₂⟩ := (timed_of_reachesIn b.after₂).reached_iff hp₂ h₂
    rw [hretire₁, hretire₂, hdone₁, hdone₂, b.issueCycle_eq hi h₁ h₂, b.after₁.cycle_eq,
      b.after₂.cycle_eq, hp₁.ticks_eq, hp₂.ticks_eq, b.front.programAt_eq i hi]
    exact ⟨Iff.rfl, Iff.rfl⟩
  · have h₂ := mt (b.issued_iff hi).mpr h₁
    exact ⟨iff_of_false (fun h => h₁ (h.mono (by decide))) fun h => h₂ (h.mono (by decide)),
      iff_of_false (fun h => h₁ (h.mono (by decide))) fun h => h₂ (h.mono (by decide))⟩

theorem reached_iff (b : TwoRuns config n w₁ w₂ k s₁ t₁ s₁' s₂ t₂ s₂') {i : ℕ} (hi : i < n)
    (st : Stage) : s₁'.Reached st i ↔ s₂'.Reached st i := by
  cases st with
  | fetch =>
    have hfetched := b.fetched
    rw [reached_fetch_iff, reached_fetch_iff]
    omega
  | decode =>
    have hdecoded := b.decoded
    rw [(inOrder_of_reachesIn b.after₁).reached_decode_iff b.it₁.placed_finish,
      (inOrder_of_reachesIn b.after₂).reached_decode_iff b.it₂.placed_finish]
    omega
  | dispatch =>
    have hentered := b.entered
    rw [(inOrder_of_reachesIn b.after₁).reached_dispatch_iff b.it₁.placed_finish,
      (inOrder_of_reachesIn b.after₂).reached_dispatch_iff b.it₂.placed_finish]
    omega
  | ready => exact b.ready_iff hi
  | execute => exact b.issued_iff hi
  | retire => exact (b.completed_iff hi).1
  | done => exact (b.completed_iff hi).2

/-- **One cycle keeps the agreement.** -/
theorem step (b : TwoRuns config n w₁ w₂ k s₁ t₁ s₁' s₂ t₂ s₂') : AgreeUpTo n s₁' s₂' where
  fetched := b.fetched
  instr i hi := by
    have hbefore := b.agree.fetched
    have hafter := b.fetched
    have hsame := b.agree.instr i hi
    have hcycle : s₁.cycle = s₂.cycle := b.before₁.cycle_eq.trans b.before₂.cycle_eq.symm
    rcases Nat.lt_or_ge i s₁.nextToFetch with hold | hold
    · have hadvance₁ := b.it₁.advance hold
      have hadvance₂ := b.it₂.advance (i := i) (by omega)
      rw [hsame, hcycle] at hadvance₁
      refine hadvance₁.eq_of_stage hadvance₂ (Stage.rank_injective ?_)
      have hlt₁ : i < s₁'.nextToFetch := hold.trans_le b.it₁.nextToFetch_le
      have hlt₂ : i < s₂'.nextToFetch := by omega
      exact Nat.le_antisymm ((b.reached_iff hi _).mp ⟨hlt₁, le_rfl⟩).2
        ((b.reached_iff hi _).mpr ⟨hlt₂, le_rfl⟩).2
    rcases Nat.lt_or_ge i s₁'.nextToFetch with hnew | hnew
    · rw [b.it₁.instr_fetched hold hnew, b.it₂.instr_fetched (by omega) (by omega), hsame, hcycle]
    · rw [b.it₁.instr_of_unfetched hnew, b.it₂.instr_of_unfetched (by omega), hsame]

end TwoRuns

/-! ### Two runs -/

/-- **Two runs agree on a shared front** in every cycle. -/
theorem agreeUpTo_of_reachesIn {config : SimulatorConfig} {n : ℕ} {w₁ w₂ : List Instruction}
    (hfront : SharedFront n w₁ w₂) {k : ℕ} {s₁ s₂ : SimState} (h₁ : ReachesIn w₁ config k s₁)
    (h₂ : ReachesIn w₂ config k s₂) : AgreeUpTo n s₁ s₂ := by
  induction k generalizing s₁ s₂ with
  | zero =>
    cases h₁
    cases h₂
    exact ⟨rfl, hfront.programAt_eq⟩
  | succ k ih =>
    have hafter₁ := h₁
    have hafter₂ := h₂
    cases h₁ with | step hu₁ _ hb₁ =>
    cases h₂ with | step hu₂ _ hb₂ =>
    obtain ⟨t₁, it₁⟩ := (placed_of_reachesIn hu₁).iteration hb₁
    obtain ⟨t₂, it₂⟩ := (placed_of_reachesIn hu₂).iteration hb₂
    have b : TwoRuns config n w₁ w₂ k _ t₁ s₁ _ t₂ s₂ :=
      ⟨hu₁, hu₂, hafter₁, hafter₂, it₁, it₂, hfront, ih hu₁ hu₂⟩
    exact b.step

theorem AgreeUpTo.take_eq {n : ℕ} {w₁ w₂ : List Instruction} {s₁ s₂ : SimState}
    (h : AgreeUpTo n s₁ s₂) (hfront : SharedFront n w₁ w₂) (hp₁ : Placed w₁ s₁)
    (hp₂ : Placed w₂ s₂) : s₁.instructions.take n = s₂.instructions.take n := by
  rw [s₁.instructions_eq_map, s₂.instructions_eq_map, ← List.map_take, ← List.map_take,
    List.take_range, List.take_range, hp₁.length_eq, hp₂.length_eq,
    min_eq_left hfront.length_le₁, min_eq_left hfront.length_le₂]
  exact List.map_congr_left fun i hi => h.instr i (List.mem_range.mp hi)

theorem sharedFront_append {front : List Instruction} (hdeps : ∀ i ∈ front, i.deps = [])
    (rest₁ rest₂ : List Instruction) :
    SharedFront front.length (front ++ rest₁) (front ++ rest₂) := by
  have hprogram (rest : List Instruction) {i : ℕ} (hi : i < front.length) :
      programAt (front ++ rest) i = programAt front i := by
    rw [programAt, programAt, List.getD_eq_getElem?_getD, List.getElem?_append_left hi,
      ← List.getD_eq_getElem?_getD]
  refine ⟨by simp, by simp, fun i hi => ?_, fun i hi => ?_⟩
  · rw [hprogram rest₁ hi, hprogram rest₂ hi]
  · rw [hprogram rest₁ hi]
    exact hdeps _ (programAt_mem hi)

/-! ### Where the front ends -/

/-- What is done is not written again. -/
theorem ReachesIn.instr_of_done {workload : List Instruction} {config : SimulatorConfig}
    {j d : ℕ} {u s : SimState} (hu : ReachesIn workload config j u)
    (hs : ReachesIn workload config (j + d) s) {i : ℕ} (hdone : u.Reached .done i) :
    s.instr i = u.instr i ∧ s.Reached .done i := by
  induction d generalizing s with
  | zero =>
    rw [WhileLoop.ReachesIn.unique hs hu]
    exact ⟨rfl, hdone⟩
  | succ d ih =>
    cases hs with | @step _ _ v _ hv _ hb =>
    obtain ⟨t, it⟩ := (placed_of_reachesIn hv).iteration hb
    obtain ⟨hsame, hreached⟩ := ih hv
    refine ⟨?_, it.reached_mono hreached⟩
    have hstage : (v.instr i).stage = .done :=
      (SimState.mem_doneList.mp (SimState.reached_done_iff.mp hreached)).2
    rw [← hsame]
    have hadvance := it.advance hreached.1
    exact hadvance.eq_of_stage (.stay (by rw [hstage]; decide))
      (hadvance.stage_done_iff.mpr (.inl hstage) |>.trans hstage.symm)

/-- A run of `k` cycles has ended by then, or goes on. -/
theorem exists_exit_or_reachesIn (workload : List Instruction) (config : SimulatorConfig)
    (k : ℕ) : (∃ j s, j ≤ k ∧ ReachesIn workload config j s ∧ hasWorkLeft s = false) ∨
      ∃ s, ReachesIn workload config k s := by
  induction k with
  | zero => exact .inr ⟨_, .zero⟩
  | succ k ih =>
    rcases ih with ⟨j, s, hj, hs, hexit⟩ | ⟨s, hs⟩
    · exact .inl ⟨j, s, Nat.le_succ_of_le hj, hs, hexit⟩
    · cases hwork : hasWorkLeft s with
      | false => exact .inl ⟨k, s, Nat.le_succ k, hs, hwork⟩
      | true =>
        obtain ⟨_, v, hbody, _⟩ := ReachesIn.exists_iteration hs
        exact .inr ⟨v, .step hs hwork hbody⟩

section

variable {front : List Instruction} (hdeps : ∀ i ∈ front, i.deps = [])
  (rest : List Instruction) {config : SimulatorConfig} {j k : ℕ} {s s' : SimState}

include hdeps

/-- Once the front alone has ended, its instructions stay as they are there. -/
theorem take_eq_of_exit (h : ReachesIn front config j s) (hexit : hasWorkLeft s = false)
    (hj : j ≤ k) (h' : ReachesIn (front ++ rest) config k s') :
    s'.instructions.take front.length = s.instructions := by
  have hfront : SharedFront front.length (front ++ rest) front := by
    simpa using sharedFront_append hdeps rest []
  have hu := h'.stateAfter hj
  have hagree := agreeUpTo_of_reachesIn hfront hu h
  have hp := placed_of_reachesIn h
  obtain ⟨d, rfl⟩ := Nat.exists_eq_add_of_le hj
  have hlater : AgreeUpTo front.length s' s := by
    have hkept (i : ℕ) (hi : i < front.length) := hu.instr_of_done h'
      ((hagree.reached_iff .done hi).mpr (hp.reached_done_of_exit hexit hi))
    refine ⟨min_eq_of_lt_iff fun i hi => ?_, fun i hi => (hkept i hi).1.trans (hagree.instr i hi)⟩
    exact iff_of_true (hkept i hi).2.1 (hp.reached_done_of_exit hexit hi).1
  rw [hlater.take_eq hfront (placed_of_reachesIn h') hp, List.take_of_length_le hp.length_eq.le]

/-- The front alone ends no later than with something behind it. -/
theorem exists_exit_of_append (h' : ReachesIn (front ++ rest) config k s')
    (hexit : hasWorkLeft s' = false) :
    ∃ j s, j ≤ k ∧ ReachesIn front config j s ∧ hasWorkLeft s = false := by
  rcases exists_exit_or_reachesIn front config k with hended | ⟨s, h⟩
  · exact hended
  · have hfront : SharedFront front.length (front ++ rest) front := by
      simpa using sharedFront_append hdeps rest []
    have hagree := agreeUpTo_of_reachesIn hfront h' h
    refine ⟨k, s, le_rfl, h, (placed_of_reachesIn h).exit_of_reached_done fun i hi => ?_⟩
    rw [← hagree.reached_iff .done hi]
    exact (placed_of_reachesIn h').reached_done_of_exit hexit (hi.trans_le hfront.length_le₁)

end

/-- **What follows does not matter** to independent instructions at the front of a workload: in
    every cycle their records are the same whatever is behind them, and when a run ends, so does
    one of the front alone, no later and with the same timestamps. -/
theorem front_unaffected (front rest₁ rest₂ : List Instruction) (config : SimulatorConfig)
    (hdeps : ∀ i ∈ front, i.deps = []) :
    (∀ k s₁ s₂, ReachesIn (front ++ rest₁) config k s₁ → ReachesIn (front ++ rest₂) config k s₂ →
      s₁.instructions.take front.length = s₂.instructions.take front.length) ∧
    (∀ fuel result, runWorkload fuel front config = .ok (some result) →
      ∀ k s, ReachesIn (front ++ rest₁) config k s → result.stats.totalCycles ≤ k →
        s.instructions.take front.length = result.instructions) ∧
    ∀ fuel result₁, runWorkload fuel (front ++ rest₁) config = .ok (some result₁) →
      ∃ result, runWorkload fuel front config = .ok (some result) ∧
        result₁.instructions.take front.length = result.instructions ∧
        result.stats.totalCycles ≤ result₁.stats.totalCycles := by
  refine ⟨fun k s₁ s₂ h₁ h₂ => ?_, fun fuel result hrun k s h hk => ?_,
    fun fuel result₁ hrun₁ => ?_⟩
  · have hfront := sharedFront_append hdeps rest₁ rest₂
    exact (agreeUpTo_of_reachesIn hfront h₁ h₂).take_eq hfront (placed_of_reachesIn h₁)
      (placed_of_reachesIn h₂)
  · obtain ⟨j, u, _, hu, hexit, rfl⟩ := runWorkload_eq_some_iff.mp hrun
    have hj : j ≤ k := hu.cycle_eq ▸ hk
    exact take_eq_of_exit hdeps rest₁ hu hexit hj h
  · obtain ⟨k, s, hk, h, hexit, rfl⟩ := runWorkload_eq_some_iff.mp hrun₁
    obtain ⟨j, u, hj, hu, hexit'⟩ := exists_exit_of_append hdeps rest₁ h hexit
    refine ⟨resultOf config u,
      runWorkload_eq_some_iff.mpr ⟨j, u, hj.trans hk, hu, hexit', rfl⟩,
      take_eq_of_exit hdeps rest₁ hu hexit' hj h, ?_⟩
    change u.cycle ≤ s.cycle
    rwa [hu.cycle_eq, h.cycle_eq]

theorem front_unaffected_loadsBeforeCompute :
    ∃ result₁, runWorkload 20 (loadsBeforeCompute ++ dependentPair) {} = .ok (some result₁) ∧
      ∃ result, runWorkload 20 loadsBeforeCompute {} = .ok (some result) ∧
        result₁.instructions.take 3 = result.instructions := by
  have hrun : ∃ result₁,
      runWorkload 20 (loadsBeforeCompute ++ dependentPair) {} = .ok (some result₁) := ⟨_, rfl⟩
  obtain ⟨result₁, hrun⟩ := hrun
  obtain ⟨result, hfront, hsame, _⟩ :=
    (front_unaffected loadsBeforeCompute dependentPair [] {} (by decide)).2.2 20 result₁ hrun
  exact ⟨result₁, hrun, result, hfront, hsame⟩

end AccelSim
