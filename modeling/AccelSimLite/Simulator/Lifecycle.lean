import AccelSimLite.Simulator.Placement

/-!
# The life of one instruction

What a cycle can do to a single instruction, stated once. Facts about stages and
timestamps over whole runs are case analyses of `Advance`.

## Main definitions

- `Advance c i i'` — cycle `c` turns the fetched instruction `i` into `i'`
- `Timed` — how the timestamps of an instruction relate to its stage and the cycle
-/

namespace AccelSim

/-- What cycle `c` can do to a fetched instruction. An instruction that becomes
    ready can be issued by the same cycle. -/
inductive Advance (c : ℕ) : Instruction → Instruction → Prop
  | stay {i : Instruction} : i.stage ≠ .retire → Advance c i i
  | decode {i : Instruction} : i.stage = .fetch → Advance c i (setDecode i)
  | enter {i : Instruction} : i.stage = .decode → Advance c i (setDispatch i)
  | ready {i : Instruction} : i.stage = .dispatch → Advance c i (setReady i)
  | readyIssue {i : Instruction} : i.stage = .dispatch → Advance c i (setExecute c (setReady i))
  | issue {i : Instruction} : i.stage = .ready → Advance c i (setExecute c i)
  | complete {i : Instruction} : i.stage = .execute → Advance c i (setRetire c i)
  | retire {i : Instruction} : i.stage = .retire → Advance c i (setDone i)

section Moves

variable {a b : Stage} {f : Instruction → Instruction} {moved kept : List ℕ} {s s' : SimState}
  {workload : List Instruction}

/-- A pass rewrites what it moves and leaves every other instruction alone. -/
theorem Moves.instr_cases (m : Moves a b f moved kept s s') (h : Placed workload s) {i : ℕ}
    (hi : i < s.nextToFetch) :
    i ∈ moved ∧ (s.instr i).stage = a ∧ s'.instr i = f (s.instr i) ∨
      i ∉ moved ∧ s'.instr i = s.instr i := by
  have hlen : i < s.instructions.length := h.length_eq ▸ hi.trans_le h.next_le
  rw [m.instr_eq, s.instr_markAll m.sets.idem moved hlen]
  by_cases hm : i ∈ moved
  · exact .inl ⟨hm, (m.of_mem_moved h hm).2, if_pos hm⟩
  · exact .inr ⟨hm, if_neg hm⟩

theorem Moves.instr_of_ne (m : Moves a b f moved kept s s') (h : Placed workload s) {i : ℕ}
    (hi : i < s.nextToFetch) (hst : (s.instr i).stage ≠ a) : s'.instr i = s.instr i := by
  rcases m.instr_cases h hi with ⟨_, ha, _⟩ | ⟨_, he⟩
  · exact absurd ha hst
  · exact he

theorem Moves.instr_unfetched (m : Moves a b f moved kept s s') (h : Placed workload s) {i : ℕ}
    (hi : s.nextToFetch ≤ i) : s'.instr i = s.instr i := by
  rw [m.instr_eq]
  apply s.instr_markAll_of_not_mem
  intro hm
  exact absurd (m.of_mem_moved h hm).1 (Nat.not_lt.mpr hi)

theorem Moves.lt_next (m : Moves a b f moved kept s s') {i : ℕ} (hi : i < s.nextToFetch) :
    i < s'.nextToFetch := m.next ▸ hi

end Moves

theorem fetchPass_instr_of_lt {workload : List Instruction} {s : SimState} (h : Placed workload s)
    (config : SimulatorConfig) {i : ℕ} (hi : i < s.nextToFetch) :
    (fetchPass config s).instr i = s.instr i := by
  have hlen : i < s.instructions.length := h.length_eq ▸ hi.trans_le h.next_le
  have hnot : i ∉ fetching config s := by
    rw [mem_fetching]
    omega
  rw [fetchPass_eq]
  exact (s.instr_markAll (setFetch_setsStage s.cycle).idem _ hlen).trans (if_neg hnot)

/-- An iteration from `s` to `s'` whose dispatch pass starts in `t`, with the
    placement of every state between its passes. -/
structure Iteration (workload : List Instruction) (config : SimulatorConfig) (s t s' : SimState) :
    Prop where
  start : dispatchStart s = .ok t
  finish : s' = recordCycle (afterFetch config t)
  placed : Placed workload s
  retired : Placed workload (retirePass s)
  started : Placed workload t
  dispatched : Placed workload (afterDispatch config t)
  issued : Placed workload (afterIssue config t)
  entered : Placed workload (afterEnter config t)
  decoded : Placed workload (afterDecode config t)
  fetched : Placed workload (afterFetch config t)

theorem Placed.iteration {workload : List Instruction} {config : SimulatorConfig} {s s' : SimState}
    (h : Placed workload s) (hs : cycleBody config s = .ok s') :
    ∃ t, Iteration workload config s t s' := by
  obtain ⟨t, ht, hs'⟩ := cycleBody_ok_iff.mp hs
  have h1 := h.move (retirePass_moves s)
  have h2 := h1.move (executeTick_moves ht)
  have h3 := h2.move (dispatchPass_moves config t)
  have h4 := h3.move (issuePass_moves config _)
  have h5 := h4.move (enterDispatch_moves config _)
  have h6 := h5.move (decodePass_moves config _)
  exact ⟨t, ht, hs', h, h1, h2, h3, h4, h5, h6, h6.fetch config⟩

namespace Iteration

variable {workload : List Instruction} {config : SimulatorConfig} {s t s' : SimState}

theorem cycle_eq (it : Iteration workload config s t s') : t.cycle = s.cycle :=
  dispatchStart_cycle it.start

theorem retirePass_cycle (s : SimState) : (retirePass s).cycle = s.cycle := by
  rw [retirePass_eq]
  rfl

theorem nextToFetch_start (it : Iteration workload config s t s') :
    t.nextToFetch = s.nextToFetch :=
  (executeTick_moves it.start).next.trans (retirePass_moves s).next

/-- The first half of an iteration completes and retires instructions. -/
theorem advance_start (it : Iteration workload config s t s') {i : ℕ} (hi : i < s.nextToFetch) :
    (s.instr i).stage = .retire ∧ t.instr i = setDone (s.instr i) ∨
      (s.instr i).stage = .execute ∧ i ∈ (retirePass s).finished ∧
        t.instr i = setRetire s.cycle (s.instr i) ∨
      (s.instr i).stage ≠ .retire ∧ t.instr i = s.instr i := by
  have m₁ := retirePass_moves s
  have m₂ := executeTick_moves it.start
  rcases m₁.instr_cases it.placed hi with ⟨_, hst, he⟩ | ⟨hnot, he⟩
  · -- a retired instruction is `Done`, which the tick does not touch
    refine .inl ⟨hst, ?_⟩
    have hne : ((retirePass s).instr i).stage ≠ .execute := by
      rw [he]
      exact Stage.noConfusion
    rw [m₂.instr_of_ne it.retired (m₁.lt_next hi) hne, he]
  · have hst : (s.instr i).stage ≠ .retire := by
      intro hst
      exact hnot ((it.placed.mem_iff .retire i).mpr ⟨hi, hst⟩)
    rcases m₂.instr_cases it.retired (m₁.lt_next hi) with ⟨hm, hst₂, he₂⟩ | ⟨_, he₂⟩
    · rw [he] at hst₂ he₂
      exact .inr (.inl ⟨hst₂, hm, by rw [he₂, retirePass_cycle]⟩)
    · exact .inr (.inr ⟨hst, he₂.trans he⟩)

theorem afterDispatch_cycle (config : SimulatorConfig) (t : SimState) :
    (afterDispatch config t).cycle = t.cycle := by
  rw [afterDispatch, dispatchPass_eq]
  rfl

/-- From the issue pass on, an instruction moves only out of `decode` and `fetch`. -/
theorem instr_after_issue (it : Iteration workload config s t s') {i : ℕ}
    (hi : i < (afterIssue config t).nextToFetch) :
    ((afterIssue config t).instr i).stage = .decode ∧
        s'.instr i = setDispatch ((afterIssue config t).instr i) ∨
      ((afterIssue config t).instr i).stage = .fetch ∧
        s'.instr i = setDecode ((afterIssue config t).instr i) ∨
      s'.instr i = (afterIssue config t).instr i := by
  have m₅ := enterDispatch_moves config (afterIssue config t)
  have m₆ := decodePass_moves config (afterEnter config t)
  have hi₅ := m₅.lt_next hi
  have hi₆ := m₆.lt_next hi₅
  have hlast : s'.instr i = (afterDecode config t).instr i := by
    rw [it.finish]
    exact fetchPass_instr_of_lt it.decoded config hi₆
  rcases m₅.instr_cases it.issued hi with ⟨_, hst, he⟩ | ⟨_, he⟩
  · have hne : ((afterEnter config t).instr i).stage ≠ .fetch := by
      rw [he]
      exact Stage.noConfusion
    exact .inl ⟨hst, by rw [hlast, m₆.instr_of_ne it.entered hi₅ hne, he]⟩
  · rcases m₆.instr_cases it.entered hi₅ with ⟨_, hst, he₆⟩ | ⟨_, he₆⟩
    · rw [he] at hst he₆
      exact .inr (.inl ⟨hst, hlast.trans he₆⟩)
    · exact .inr (.inr (hlast.trans (he₆.trans he)))

/-- The second half moves an instruction one stage on, or from the dispatch
    queue to execution. -/
theorem advance_schedule (it : Iteration workload config s t s') {i : ℕ} (hi : i < t.nextToFetch) :
    s'.instr i = t.instr i ∨
      (t.instr i).stage = .fetch ∧ s'.instr i = setDecode (t.instr i) ∨
      (t.instr i).stage = .decode ∧ s'.instr i = setDispatch (t.instr i) ∨
      (t.instr i).stage = .dispatch ∧ s'.instr i = setReady (t.instr i) ∨
      (t.instr i).stage = .dispatch ∧ s'.instr i = setExecute t.cycle (setReady (t.instr i)) ∨
      (t.instr i).stage = .ready ∧ s'.instr i = setExecute t.cycle (t.instr i) := by
  have m₃ := dispatchPass_moves config t
  have m₄ := issuePass_moves config (afterDispatch config t)
  have hi₃ := m₃.lt_next hi
  have hi₄ := m₄.lt_next hi₃
  have hlast := it.instr_after_issue hi₄
  rw [afterDispatch_cycle] at m₄
  -- an instruction that is ready or executing now is touched by neither of the later passes
  rcases m₃.instr_cases it.started hi with ⟨_, hst, he⟩ | ⟨_, he⟩
  · rcases m₄.instr_cases it.dispatched hi₃ with ⟨_, _, he₄⟩ | ⟨_, he₄⟩
    · rw [he] at he₄
      rw [he₄] at hlast
      rcases hlast with ⟨h, _⟩ | ⟨h, _⟩ | h
      · cases h
      · cases h
      · exact .inr (.inr (.inr (.inr (.inl ⟨hst, h⟩))))
    · rw [he₄, he] at hlast
      rcases hlast with ⟨h, _⟩ | ⟨h, _⟩ | h
      · cases h
      · cases h
      · exact .inr (.inr (.inr (.inl ⟨hst, h⟩)))
  · rcases m₄.instr_cases it.dispatched hi₃ with ⟨_, hst₄, he₄⟩ | ⟨_, he₄⟩
    · rw [he] at hst₄ he₄
      rw [he₄] at hlast
      rcases hlast with ⟨h, _⟩ | ⟨h, _⟩ | h
      · cases h
      · cases h
      · exact .inr (.inr (.inr (.inr (.inr ⟨hst₄, h⟩))))
    · rw [he₄, he] at hlast
      rcases hlast with h | h | h
      · exact .inr (.inr (.inl h))
      · exact .inr (.inl h)
      · exact .inl h

/-- **One cycle in the life of an instruction.** -/
theorem advance (it : Iteration workload config s t s') {i : ℕ} (hi : i < s.nextToFetch) :
    Advance s.cycle (s.instr i) (s'.instr i) := by
  have hlast := it.advance_schedule (it.nextToFetch_start ▸ hi)
  rw [it.cycle_eq] at hlast
  rcases it.advance_start hi with ⟨hst, he⟩ | ⟨hst, _, he⟩ | ⟨hst, he⟩
  · rw [he] at hlast
    rcases hlast with h | ⟨h, _⟩ | ⟨h, _⟩ | ⟨h, _⟩ | ⟨h, _⟩ | ⟨h, _⟩
    · exact h ▸ .retire hst
    all_goals cases h
  · rw [he] at hlast
    rcases hlast with h | ⟨h, _⟩ | ⟨h, _⟩ | ⟨h, _⟩ | ⟨h, _⟩ | ⟨h, _⟩
    · exact h ▸ .complete hst
    all_goals cases h
  · rw [he] at hlast
    rcases hlast with h | ⟨hs, h⟩ | ⟨hs, h⟩ | ⟨hs, h⟩ | ⟨hs, h⟩ | ⟨hs, h⟩
    · rw [h]
      exact .stay hst
    · exact h ▸ .decode hs
    · exact h ▸ .enter hs
    · exact h ▸ .ready hs
    · exact h ▸ .readyIssue hs
    · exact h ▸ .issue hs

theorem nextToFetch_decoded (it : Iteration workload config s t s') :
    (afterDecode config t).nextToFetch = s.nextToFetch := by
  rw [(decodePass_moves config _).next, (enterDispatch_moves config _).next,
    (issuePass_moves config _).next, (dispatchPass_moves config _).next, it.nextToFetch_start]

theorem afterDecode_cycle (config : SimulatorConfig) (t : SimState) :
    (afterDecode config t).cycle = t.cycle := by
  simp only [decodePass_eq, enterDispatch_eq, issuePass_eq, dispatchPass_eq]
  rfl

/-- Only the fetch pass writes an instruction that is not fetched yet. -/
theorem instr_unfetched (it : Iteration workload config s t s') {i : ℕ}
    (hi : s.nextToFetch ≤ i) : (afterDecode config t).instr i = s.instr i := by
  have h₁ := (retirePass_moves s).instr_unfetched it.placed hi
  have h₂ := (executeTick_moves it.start).instr_unfetched it.retired
    ((retirePass_moves s).next ▸ hi)
  have hi₂ : t.nextToFetch ≤ i := it.nextToFetch_start ▸ hi
  have h₃ := (dispatchPass_moves config t).instr_unfetched it.started hi₂
  have hi₃ := (dispatchPass_moves config t).next ▸ hi₂
  have h₄ := (issuePass_moves config _).instr_unfetched it.dispatched hi₃
  have hi₄ := (issuePass_moves config _).next ▸ hi₃
  have h₅ := (enterDispatch_moves config _).instr_unfetched it.issued hi₄
  have hi₅ := (enterDispatch_moves config _).next ▸ hi₄
  have h₆ := (decodePass_moves config _).instr_unfetched it.entered hi₅
  rw [h₆, h₅, h₄, h₃, h₂, h₁]

/-- An instruction that the cycle fetches. -/
theorem instr_fetched (it : Iteration workload config s t s') {i : ℕ} (hi : s.nextToFetch ≤ i)
    (hi' : i < s'.nextToFetch) : s'.instr i = setFetch s.cycle (s.instr i) := by
  have hge : (afterDecode config t).nextToFetch ≤ i := it.nextToFetch_decoded ▸ hi
  have hlt : i < (afterFetch config t).nextToFetch := by
    rw [it.finish] at hi'
    exact hi'
  have hlen : i < (afterDecode config t).instructions.length := by
    rw [it.decoded.length_eq]
    exact hlt.trans_le (fetchPass_nextToFetch_le it.decoded config).2
  have hmark := SimState.instr_markAll (afterDecode config t)
    (setFetch_setsStage (afterDecode config t).cycle).idem (fetching config (afterDecode config t))
    hlen
  rw [if_pos (mem_fetching.mpr ⟨hge, hlt⟩), it.instr_unfetched hi, afterDecode_cycle,
    it.cycle_eq] at hmark
  rw [it.finish, ← hmark, ← it.cycle_eq, ← afterDecode_cycle config]
  simp only [SimState.instr, afterFetch, fetchPass_eq]
  rfl

theorem nextToFetch_le (it : Iteration workload config s t s') :
    s.nextToFetch ≤ s'.nextToFetch := by
  rw [it.finish, ← it.nextToFetch_decoded]
  exact (fetchPass_nextToFetch_le it.decoded config).1

end Iteration

/-- A property that the initial state has and every iteration keeps holds at the
    head of every cycle of every run. -/
theorem ReachesIn.keeps (Inv : SimState → Prop) {workload : List Instruction}
    {config : SimulatorConfig} {k : ℕ} {s : SimState} (h : ReachesIn workload config k s)
    (hinit : Inv (initState workload))
    (hstep : ∀ j u t v, ReachesIn workload config j u → ReachesIn workload config (j + 1) v →
      Iteration workload config u t v → Inv u → Inv v) : Inv s := by
  have hboth := WhileLoop.ReachesIn.invariant
    (fun k s => ReachesIn workload config k s ∧ Inv s) h ⟨.zero, hinit⟩
    fun j v w hv hg hb => by
      obtain ⟨t, it⟩ := (placed_of_reachesIn hv.1).iteration hb
      have hw : ReachesIn workload config (j + 1) w := .step hv.1 hg hb
      exact ⟨hw, hstep j v t w hv.1 hw it hv.2⟩
  exact hboth.2

theorem ReachesIn.stateAfter {workload : List Instruction} {config : SimulatorConfig} {j k : ℕ}
    {s : SimState} (h : ReachesIn workload config k s) (hj : j ≤ k) :
    ReachesIn workload config j (stateAfter workload config j) :=
  WhileLoop.ReachesIn.take h hj

/-- Consecutive states of a run are an iteration apart. -/
theorem ReachesIn.iteration_at {workload : List Instruction} {config : SimulatorConfig} {j k : ℕ}
    {s : SimState} (h : ReachesIn workload config k s) (hj : j < k) :
    ∃ t, Iteration workload config (AccelSim.stateAfter workload config j) t
      (AccelSim.stateAfter workload config (j + 1)) :=
  (placed_of_reachesIn (h.stateAfter hj.le)).iteration (WhileLoop.ReachesIn.step_at h hj).2

end AccelSim
