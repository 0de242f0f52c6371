import AccelSimLite.Simulator.Timing

/-!
# The history of a run

An instruction goes through the stages in order and stays past every stage it
has come to. One iteration brings to each stage exactly what the pass into that
stage moved, and the timestamps say in which cycle that was.

## Main definitions

- `Stage.rank` — the position of a stage in the pipeline
- `SimState.Reached` — the instruction at an index has come to a stage
- `movedTo` — what an iteration brings to a stage
- `Stamped` — an event that is written once, with the cycle it happens in
-/

namespace AccelSim

def Stage.rank : Stage → ℕ
  | .fetch => 0
  | .decode => 1
  | .dispatch => 2
  | .ready => 3
  | .execute => 4
  | .retire => 5
  | .done => 6

theorem Stage.rank_injective : Function.Injective Stage.rank := by
  intro a b h
  cases a <;> cases b <;> first | rfl | cases h

/-- The instruction at an index has come to a stage, or gone past it. -/
def SimState.Reached (s : SimState) (st : Stage) (i : ℕ) : Prop :=
  i < s.nextToFetch ∧ st.rank ≤ (s.instr i).stage.rank

instance (s : SimState) (st : Stage) (i : ℕ) : Decidable (s.Reached st i) :=
  inferInstanceAs (Decidable (_ ∧ _))

/-- The instruction at an index has been issued. -/
abbrev SimState.Issued (s : SimState) (i : ℕ) : Prop := s.Reached .execute i

theorem SimState.Reached.mono {s : SimState} {st st' : Stage} {i : ℕ} (h : s.Reached st i)
    (hle : st'.rank ≤ st.rank) : s.Reached st' i := ⟨h.1, hle.trans h.2⟩

theorem SimState.reached_done_iff {s : SimState} {i : ℕ} : s.Reached .done i ↔ i ∈ s.doneList := by
  rw [SimState.mem_doneList, SimState.Reached]
  refine and_congr_right fun _ => ?_
  cases (s.instr i).stage <;> decide

/-- A queue holds what has come to its stage but not to the next. -/
theorem Placed.mem_queueOf_iff {workload : List Instruction} {s : SimState} (h : Placed workload s)
    (a b : Stage) (hrank : b.rank = a.rank + 1) (i : ℕ) :
    i ∈ s.queueOf a ↔ s.Reached a i ∧ ¬s.Reached b i := by
  rw [h.mem_iff, SimState.Reached, SimState.Reached, ← Stage.rank_injective.eq_iff]
  constructor
  · rintro ⟨hi, hst⟩
    exact ⟨⟨hi, hst.ge⟩, fun hb => by omega⟩
  · rintro ⟨⟨hi, hle⟩, hb⟩
    have hlt : ¬b.rank ≤ (s.instr i).stage.rank := fun hle' => hb ⟨hi, hle'⟩
    exact ⟨hi, by omega⟩

/-- A pass brings what it moves to its target, and nothing to another stage. -/
theorem Moves.reached_iff {a b : Stage} {f : Instruction → Instruction} {moved kept : List ℕ}
    {s s' : SimState} {workload : List Instruction} (m : Moves a b f moved kept s s')
    (hrank : b.rank = a.rank + 1) (h : Placed workload s) (st : Stage) (i : ℕ) :
    s'.Reached st i ↔ s.Reached st i ∨ st = b ∧ i ∈ moved := by
  have hnext : s'.nextToFetch = s.nextToFetch := m.next
  unfold SimState.Reached
  rw [hnext]
  by_cases hi : i < s.nextToFetch
  · rcases m.instr_cases h hi with ⟨hm, hst, he⟩ | ⟨hm, he⟩
    · simp only [hi, hm, true_and, and_true, he, m.sets.stage, hst, hrank]
      rw [← Stage.rank_injective.eq_iff, hrank]
      omega
    · simp [hi, hm, he]
  · have hm : i ∉ moved := fun hm => hi (m.of_mem_moved h hm).1
    simp [hi, hm]

theorem Moves.not_reached {a b : Stage} {f : Instruction → Instruction} {moved kept : List ℕ}
    {s s' : SimState} {workload : List Instruction} (m : Moves a b f moved kept s s')
    (hrank : b.rank = a.rank + 1) (h : Placed workload s) {i : ℕ} (hi : i ∈ moved) :
    ¬s.Reached b i := by
  rintro ⟨_, hle⟩
  rw [(m.of_mem_moved h hi).2] at hle
  omega

theorem fetchPass_reached_iff {workload : List Instruction} {s : SimState} (h : Placed workload s)
    (config : SimulatorConfig) (st : Stage) (i : ℕ) :
    (fetchPass config s).Reached st i ↔
      s.Reached st i ∨ st = .fetch ∧ i ∈ fetching config s := by
  have hle := (fetchPass_nextToFetch_le h config).1
  rw [mem_fetching]
  unfold SimState.Reached
  by_cases hi : i < s.nextToFetch
  · have hge : ¬s.nextToFetch ≤ i := Nat.not_le.mpr hi
    simp [hi, hi.trans_le hle, hge, fetchPass_instr_of_lt h config hi]
  · by_cases hi' : i < (fetchPass config s).nextToFetch
    · have hst := fetchPass_stage_eq h config hi'
      rw [if_pos (Nat.le_of_not_lt hi)] at hst
      simp only [hi, hi', hst, Nat.le_of_not_lt hi, true_and, false_and, false_or, and_true]
      cases st <;> simp [Stage.rank]
    · simp [hi, hi']

/-- What an iteration from `s` whose dispatch pass starts in `t` brings to each stage. -/
def movedTo (config : SimulatorConfig) (s t : SimState) : Stage → List ℕ
  | .fetch => fetching config (afterDecode config t)
  | .decode => decoding config (afterEnter config t)
  | .dispatch => entering config (afterIssue config t)
  | .ready => dispatchMoved config t
  | .execute => issueMoved config (afterDispatch config t)
  | .retire => s.finished
  | .done => s.retireQ

namespace Iteration

variable {workload : List Instruction} {config : SimulatorConfig} {s t s' : SimState}

theorem reached_start_iff (it : Iteration workload config s t s') (st : Stage) (i : ℕ) :
    t.Reached st i ↔
      s.Reached st i ∨ st = .done ∧ i ∈ s.retireQ ∨ st = .retire ∧ i ∈ s.finished := by
  rw [(executeTick_moves it.start).reached_iff rfl it.retired,
    (retirePass_moves s).reached_iff rfl it.placed, finished_retirePass, or_assoc]

theorem reached_dispatched_iff (it : Iteration workload config s t s') (st : Stage) (i : ℕ) :
    (afterDispatch config t).Reached st i ↔
      t.Reached st i ∨ st = .ready ∧ i ∈ dispatchMoved config t :=
  (dispatchPass_moves config t).reached_iff rfl it.started st i

theorem reached_issued_iff (it : Iteration workload config s t s') (st : Stage) (i : ℕ) :
    (afterIssue config t).Reached st i ↔
      (afterDispatch config t).Reached st i ∨
        st = .execute ∧ i ∈ issueMoved config (afterDispatch config t) :=
  (issuePass_moves config _).reached_iff rfl it.dispatched st i

/-- **One iteration brings to each stage what the pass into it moved.** -/
theorem reached_iff (it : Iteration workload config s t s') (st : Stage) (i : ℕ) :
    s'.Reached st i ↔ s.Reached st i ∨ i ∈ movedTo config s t st := by
  have hrecord : s'.Reached st i ↔ (afterFetch config t).Reached st i := by
    rw [it.finish]
    rfl
  rw [hrecord, fetchPass_reached_iff it.decoded config,
    (decodePass_moves config _).reached_iff rfl it.entered,
    (enterDispatch_moves config _).reached_iff rfl it.issued, it.reached_issued_iff,
    it.reached_dispatched_iff, it.reached_start_iff]
  cases st <;> simp [movedTo]

theorem reached_mono (it : Iteration workload config s t s') {st : Stage} {i : ℕ}
    (h : s.Reached st i) : s'.Reached st i :=
  (it.reached_iff st i).mpr (.inl h)

/-- What an iteration brings to a stage had not come to it before. -/
theorem not_reached_of_movedTo (it : Iteration workload config s t s') (st : Stage) {i : ℕ}
    (hi : i ∈ movedTo config s t st) : ¬s.Reached st i := by
  intro hold
  have hstart := (it.reached_start_iff st i).mpr (.inl hold)
  have hdispatched := (it.reached_dispatched_iff st i).mpr (.inl hstart)
  have hissued := (it.reached_issued_iff st i).mpr (.inl hdispatched)
  have hentered :=
    ((enterDispatch_moves config _).reached_iff rfl it.issued st i).mpr (.inl hissued)
  cases st with
  | fetch =>
    have hge := (mem_fetching.mp hi).1
    rw [it.nextToFetch_decoded] at hge
    exact absurd hold.1 (Nat.not_lt.mpr hge)
  | decode => exact (decodePass_moves config _).not_reached rfl it.entered hi hentered
  | dispatch => exact (enterDispatch_moves config _).not_reached rfl it.issued hi hissued
  | ready => exact (dispatchPass_moves config _).not_reached rfl it.started hi hstart
  | execute => exact (issuePass_moves config _).not_reached rfl it.dispatched hi hdispatched
  | retire =>
    have hretired := ((retirePass_moves s).reached_iff rfl it.placed .retire i).mpr (.inl hold)
    exact (executeTick_moves it.start).not_reached rfl it.retired
      (by rwa [finished_retirePass]) hretired
  | done => exact (retirePass_moves s).not_reached rfl it.placed hi hold

end Iteration

/-! ### Stamped events -/

/-- An event in the life of an instruction that happens once and is stamped with
    the cycle it happens in. -/
structure Stamped (st : Stage) (stamp : Instruction → ℕ) : Prop where
  kept : ∀ {workload : List Instruction} {config : SimulatorConfig} {s t s' : SimState},
    Iteration workload config s t s' → ∀ i, s.Reached st i →
      stamp (s'.instr i) = stamp (s.instr i)
  fresh : ∀ {workload : List Instruction} {config : SimulatorConfig} {s t s' : SimState},
    Iteration workload config s t s' → ∀ i, ¬s.Reached st i → s'.Reached st i →
      stamp (s'.instr i) = s.cycle

/-- A stamp tells which states of a run had seen the event. -/
theorem Stamped.reached_iff {st : Stage} {stamp : Instruction → ℕ} (hstamp : Stamped st stamp)
    {workload : List Instruction} {config : SimulatorConfig} {j k : ℕ} {u s : SimState}
    (hu : ReachesIn workload config j u) (hs : ReachesIn workload config k s) (hj : j ≤ k) (i : ℕ) :
    (u.Reached st i ↔ s.Reached st i ∧ stamp (s.instr i) < j) ∧
      (u.Reached st i → stamp (s.instr i) = stamp (u.instr i)) := by
  induction k generalizing s j u with
  | zero =>
    cases hs
    obtain rfl : j = 0 := Nat.le_zero.mp hj
    cases hu
    have hnone : ¬(initState workload).Reached st i := fun h => Nat.not_lt_zero _ h.1
    exact ⟨iff_of_false hnone (fun h => hnone h.1), fun _ => rfl⟩
  | succ k ih =>
    cases hs with | @step _ _ v _ hv hg hb =>
    obtain ⟨t, it⟩ := (placed_of_reachesIn hv).iteration hb
    -- the last state decides for itself; for an earlier one the stamp is read in the state before
    by_cases hlast : j = k + 1
    · subst hlast
      obtain rfl := WhileLoop.ReachesIn.unique hu (.step hv hg hb)
      refine ⟨⟨fun h => ⟨h, ?_⟩, fun h => h.1⟩, fun _ => rfl⟩
      by_cases hold : v.Reached st i
      · rw [hstamp.kept it i hold]
        exact Nat.lt_succ_of_lt (((ih hv hv le_rfl).1.mp hold).2)
      · rw [hstamp.fresh it i hold h, ReachesIn.cycle_eq hv]
        exact Nat.lt_succ_self k
    · have hjk : j ≤ k := by omega
      obtain ⟨hiff, heq⟩ := ih hu hv hjk
      by_cases hold : v.Reached st i
      · rw [hstamp.kept it i hold]
        refine ⟨?_, heq⟩
        rw [hiff]
        simp [hold, it.reached_mono hold]
      · have hnot : ¬u.Reached st i := fun h => hold (hiff.mp h).1
        refine ⟨iff_of_false hnot ?_, fun h => absurd h hnot⟩
        rintro ⟨hnew, hlt⟩
        rw [hstamp.fresh it i hold hnew, ReachesIn.cycle_eq hv] at hlt
        omega

/-- An event that one run is never behind with is stamped no later in it. -/
theorem Stamped.le_of_ahead {st : Stage} {stamp : Instruction → ℕ} (hstamp : Stamped st stamp)
    {w₁ w₂ : List Instruction} {c₁ c₂ : SimulatorConfig} {k₁ k₂ i : ℕ} {s₁ s₂ : SimState}
    (h₁ : ReachesIn w₁ c₁ k₁ s₁) (h₂ : ReachesIn w₂ c₂ k₂ s₂)
    (hahead : ∀ j u₁ u₂, j ≤ k₁ → ReachesIn w₁ c₁ j u₁ → ReachesIn w₂ c₂ j u₂ →
      u₁.Reached st i → u₂.Reached st i)
    (hi₁ : s₁.Reached st i) (hi₂ : s₂.Reached st i) :
    stamp (s₂.instr i) ≤ stamp (s₁.instr i) := by
  have hlt₁ := ((hstamp.reached_iff h₁ h₁ le_rfl i).1.mp hi₁).2
  have hlt₂ := ((hstamp.reached_iff h₂ h₂ le_rfl i).1.mp hi₂).2
  by_cases hj : stamp (s₁.instr i) + 1 ≤ k₂
  · -- the first run has seen the event one cycle after its stamp, and so has the second
    have hu₁ := h₁.stateAfter (Nat.succ_le_of_lt hlt₁)
    have hu₂ := h₂.stateAfter hj
    have hreached₁ := (hstamp.reached_iff hu₁ h₁ hlt₁ i).1.mpr ⟨hi₁, Nat.lt_succ_self _⟩
    have hreached₂ := hahead _ _ _ hlt₁ hu₁ hu₂ hreached₁
    exact Nat.le_of_lt_succ ((hstamp.reached_iff hu₂ h₂ hj i).1.mp hreached₂).2
  · omega

/-- An issue cycle is written once. -/
theorem Advance.issueCycle_eq {c : ℕ} {i i' : Instruction} (h : Advance c i i')
    (hst : Stage.execute.rank ≤ i.stage.rank) : i'.issueCycle = i.issueCycle := by
  cases h with
  | readyIssue h => rw [h] at hst; exact absurd hst (by decide)
  | issue h => rw [h] at hst; exact absurd hst (by decide)
  | _ => rfl

/-- An instruction that this cycle issues has the cycle as its issue cycle. -/
theorem Advance.issueCycle_of_issued {c : ℕ} {i i' : Instruction} (h : Advance c i i')
    (hst : ¬Stage.execute.rank ≤ i.stage.rank) (hst' : Stage.execute.rank ≤ i'.stage.rank) :
    i'.issueCycle = c := by
  cases h with
  | stay _ => exact absurd hst' hst
  | readyIssue _ => rfl
  | issue _ => rfl
  | complete h => rw [h] at hst; exact absurd (by decide) hst
  | retire h => rw [h] at hst; exact absurd (by decide) hst
  | _ => simp [setDecode, setDispatch, setReady, Stage.rank] at hst'

theorem stamped_issue : Stamped .execute Instruction.issueCycle where
  kept it i h := (it.advance h.1).issueCycle_eq h.2
  fresh {_ _ s _ s'} it i hold h := by
    by_cases hi : i < s.nextToFetch
    · exact (it.advance hi).issueCycle_of_issued (fun hst => hold ⟨hi, hst⟩) h.2
    · have hst := h.2
      rw [it.instr_fetched (Nat.le_of_not_lt hi) h.1] at hst
      simp [setFetch, Stage.rank] at hst

theorem Advance.enqueueCycle_eq {c : ℕ} {i i' : Instruction} (h : Advance c i i') :
    i'.enqueueCycle = i.enqueueCycle := by
  cases h <;> rfl

theorem stamped_enqueue : Stamped .fetch Instruction.enqueueCycle where
  kept it i h := (it.advance h.1).enqueueCycle_eq
  fresh {_ _ s _ s'} it i hold h := by
    have hi : s.nextToFetch ≤ i := by
      by_contra hi
      exact hold ⟨Nat.lt_of_not_le hi, Nat.zero_le _⟩
    rw [it.instr_fetched hi h.1]
    rfl

/-! ### The stage from the timestamps -/

theorem Placed.exists_slot {workload : List Instruction} {s : SimState} (hp : Placed workload s)
    {i : ℕ} (hi : i < s.nextToFetch) (hst : (s.instr i).stage = .execute) :
    ∃ slot ∈ s.execSlots, slot.index = i :=
  List.mem_map.mp ((hp.mem_iff .execute i).mpr ⟨hi, hst⟩)

/-- The issue cycle and the latency of an issued instruction say when it
    completes and when it retires. -/
theorem Timed.reached_iff {workload : List Instruction} {s : SimState} (ht : Timed s)
    (hp : Placed workload s) {i : ℕ} (h : s.Issued i) :
    (s.Reached .retire i ↔ (s.instr i).issueCycle + (s.instr i).ticks + 1 ≤ s.cycle) ∧
      (s.Reached .done i ↔ (s.instr i).issueCycle + (s.instr i).ticks + 2 ≤ s.cycle) := by
  have htimed := ht.instr i h.1
  have hrank := h.2
  unfold TimedAt at htimed
  unfold SimState.Reached
  cases hst : (s.instr i).stage <;>
    simp only [hst, Stage.rank, h.1, true_and] at htimed hrank ⊢ <;> try omega
  obtain ⟨slot, hslot, rfl⟩ := hp.exists_slot h.1 hst
  have hrem := (ht.slot slot hslot).remaining_eq
  omega

theorem Timed.completeCycle_eq {s : SimState} (ht : Timed s) {i : ℕ} (h : s.Reached .retire i) :
    (s.instr i).completeCycle = (s.instr i).issueCycle + (s.instr i).ticks := by
  refine (ht.instr i h.1).completeCycle_eq ?_
  have hrank := h.2
  cases hst : (s.instr i).stage <;> rw [hst] at hrank <;> revert hrank <;> decide

end AccelSim
