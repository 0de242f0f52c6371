import AccelSimLite.Simulator.Runs

/-!
# Where every instruction is

Each fetched instruction is in exactly one queue, and its `stage` field names it.
Every pass moves entries from one queue to the next, so a single lemma about
such moves carries the invariant through the whole cycle.

## Main definitions

- `Instruction.program` — the fields of an instruction that a run never writes
- `SimState.queueOf` — the indices found at a stage
- `Placed` — the placement invariant
- `Moves` — one pass moves `moved` from stage `a` to stage `b`
-/

namespace AccelSim

/-- The instruction with its run-time fields cleared: what a run never writes. -/
def Instruction.program (i : Instruction) : Instruction :=
  { i with stage := .fetch, enqueueCycle := 0, issueCycle := 0, completeCycle := 0 }

/-- The instruction at a position of the workload. -/
def programAt (workload : List Instruction) (i : ℕ) : Instruction := workload.getD i default

theorem map_programAt_range (workload : List Instruction) :
    (List.range workload.length).map (programAt workload) = workload := by
  apply List.ext_getElem
  · simp
  · intro i _ hi
    simp [programAt, List.getD_eq_getElem?_getD, hi]

theorem programAt_mem {workload : List Instruction} {i : ℕ} (hi : i < workload.length) :
    programAt workload i ∈ workload := by
  rw [programAt, List.getD_eq_getElem?_getD, List.getElem?_eq_getElem hi, Option.getD_some]
  exact List.getElem_mem hi

namespace SimState

/-- The fetched instructions whose `stage` is `Done`. -/
def doneList (s : SimState) : List ℕ :=
  (List.range s.nextToFetch).filter fun i => (s.instr i).stage = .done

/-- The indices found at a stage. -/
def queueOf (s : SimState) : Stage → List ℕ
  | .fetch => s.fetchQ
  | .decode => s.decodeQ
  | .dispatch => s.dispatchQ
  | .ready => s.readyQ
  | .execute => s.execSlots.map fun slot => slot.index
  | .retire => s.retireQ
  | .done => s.doneList

theorem mem_doneList {s : SimState} {i : ℕ} :
    i ∈ s.doneList ↔ i < s.nextToFetch ∧ (s.instr i).stage = .done := by
  simp [doneList]

theorem nodup_doneList (s : SimState) : s.doneList.Nodup := List.nodup_range.filter _

end SimState

/-- **Placement**: the state holds the instructions of the workload, and an index
    is in the queue of a stage exactly when it is fetched and at that stage. -/
structure Placed (workload : List Instruction) (s : SimState) : Prop where
  length_eq : s.instructions.length = workload.length
  next_le : s.nextToFetch ≤ workload.length
  program : ∀ i, (s.instr i).program = (programAt workload i).program
  nodup : ∀ st, (s.queueOf st).Nodup
  mem_iff : ∀ st i, i ∈ s.queueOf st ↔ i < s.nextToFetch ∧ (s.instr i).stage = st

theorem Placed.id_eq {workload : List Instruction} {s : SimState} (h : Placed workload s) (i : ℕ) :
    (s.instr i).id = (programAt workload i).id := by
  have h := congrArg Instruction.id (h.program i)
  exact h

theorem Placed.deps_eq {workload : List Instruction} {s : SimState} (h : Placed workload s)
    (i : ℕ) : (s.instr i).deps = (programAt workload i).deps := by
  have h := congrArg Instruction.deps (h.program i)
  exact h

theorem Placed.type_eq {workload : List Instruction} {s : SimState} (h : Placed workload s)
    (i : ℕ) : (s.instr i).type = (programAt workload i).type := by
  have h := congrArg Instruction.type (h.program i)
  exact h

/-- Writing a constant stage and other run-time fields. -/
structure SetsStage (f : Instruction → Instruction) (st : Stage) : Prop where
  stage : ∀ i, (f i).stage = st
  idem : ∀ i, f (f i) = f i
  program : ∀ i, (f i).program = i.program

theorem setDone_setsStage : SetsStage setDone .done := ⟨fun _ => rfl, fun _ => rfl, fun _ => rfl⟩

theorem setRetire_setsStage (cycle : ℕ) : SetsStage (setRetire cycle) .retire :=
  ⟨fun _ => rfl, fun _ => rfl, fun _ => rfl⟩

theorem setReady_setsStage : SetsStage setReady .ready := ⟨fun _ => rfl, fun _ => rfl, fun _ => rfl⟩

theorem setExecute_setsStage (cycle : ℕ) : SetsStage (setExecute cycle) .execute :=
  ⟨fun _ => rfl, fun _ => rfl, fun _ => rfl⟩

theorem setDispatch_setsStage : SetsStage setDispatch .dispatch :=
  ⟨fun _ => rfl, fun _ => rfl, fun _ => rfl⟩

theorem setDecode_setsStage : SetsStage setDecode .decode :=
  ⟨fun _ => rfl, fun _ => rfl, fun _ => rfl⟩

theorem setFetch_setsStage (cycle : ℕ) : SetsStage (setFetch cycle) .fetch :=
  ⟨fun _ => rfl, fun _ => rfl, fun _ => rfl⟩

/-- A pass takes the entries `moved` from the queue of stage `a`, leaves `kept`
    there, and appends `moved` to the queue of stage `b`. -/
structure Moves (a b : Stage) (f : Instruction → Instruction) (moved kept : List ℕ)
    (s s' : SimState) : Prop where
  sets : SetsStage f b
  ne : a ≠ b
  source_ne : a ≠ .done
  split : (moved ++ kept).Perm (s.queueOf a)
  instructions : s'.instructions = (s.markAll f moved).instructions
  next : s'.nextToFetch = s.nextToFetch
  source : s'.queueOf a = kept
  target : b ≠ .done → s'.queueOf b = s.queueOf b ++ moved
  other : ∀ st, st ≠ a → st ≠ b → st ≠ .done → s'.queueOf st = s.queueOf st

section Moves

variable {a b : Stage} {f : Instruction → Instruction} {moved kept : List ℕ} {s s' : SimState}
  {workload : List Instruction}

theorem Moves.instr_eq (m : Moves a b f moved kept s s') (i : ℕ) :
    s'.instr i = (s.markAll f moved).instr i := by
  simp only [SimState.instr, m.instructions]

theorem Moves.program_eq (m : Moves a b f moved kept s s') (i : ℕ) :
    (s'.instr i).program = (s.instr i).program := by
  rw [m.instr_eq]
  exact s.field_markAll Instruction.program m.sets.program moved i

theorem Moves.stage_eq (m : Moves a b f moved kept s s') (h : Placed workload s) {i : ℕ}
    (hi : i < s.nextToFetch) :
    (s'.instr i).stage = if i ∈ moved then b else (s.instr i).stage := by
  have hlen : i < s.instructions.length := by
    rw [h.length_eq]
    exact hi.trans_le h.next_le
  rw [m.instr_eq, s.instr_markAll m.sets.idem moved hlen]
  split_ifs
  · exact m.sets.stage _
  · rfl

theorem Moves.nodup_split (m : Moves a b f moved kept s s') (h : Placed workload s) :
    (moved ++ kept).Nodup :=
  m.split.nodup_iff.mpr (h.nodup a)

/-- What moves was fetched and at stage `a`. -/
theorem Moves.of_mem_moved (m : Moves a b f moved kept s s') (h : Placed workload s) {i : ℕ}
    (hi : i ∈ moved) : i < s.nextToFetch ∧ (s.instr i).stage = a :=
  (h.mem_iff a i).mp (m.split.subset (List.mem_append_left kept hi))

theorem Moves.mem_source (m : Moves a b f moved kept s s') (h : Placed workload s) {i : ℕ} :
    i ∈ kept ↔ i ∈ s.queueOf a ∧ i ∉ moved := by
  have hdisj := List.disjoint_of_nodup_append (m.nodup_split h)
  rw [← m.split.mem_iff, List.mem_append]
  constructor
  · intro hk
    exact ⟨.inr hk, fun hm => hdisj hm hk⟩
  · rintro ⟨hm | hk, hn⟩
    · exact absurd hm hn
    · exact hk

/-- After the pass the stage of an instruction is `b` when it moved, else what it was. -/
theorem Moves.stage_eq_iff (m : Moves a b f moved kept s s') (h : Placed workload s) {i : ℕ}
    (hi : i < s.nextToFetch) (st : Stage) :
    (s'.instr i).stage = st ↔ i ∈ moved ∧ b = st ∨ i ∉ moved ∧ (s.instr i).stage = st := by
  rw [m.stage_eq h hi]
  by_cases hmoved : i ∈ moved
  · simp only [hmoved, if_true, true_and, not_true, false_and, or_false]
  · simp only [hmoved, if_false, false_and, not_false_iff, true_and, false_or]

theorem Moves.mem_kept_iff (m : Moves a b f moved kept s s') (h : Placed workload s) (i : ℕ) :
    i ∈ kept ↔ i < s.nextToFetch ∧ (s'.instr i).stage = a := by
  rw [m.mem_source h, h.mem_iff, and_assoc]
  refine and_congr_right fun hi => ?_
  rw [m.stage_eq_iff h hi]
  constructor
  · rintro ⟨hst, hnot⟩
    exact .inr ⟨hnot, hst⟩
  · rintro (⟨_, hb⟩ | ⟨hnot, hst⟩)
    · exact absurd hb.symm m.ne
    · exact ⟨hst, hnot⟩

theorem Moves.mem_target_iff (m : Moves a b f moved kept s s') (h : Placed workload s) (i : ℕ) :
    i ∈ s.queueOf b ++ moved ↔ i < s.nextToFetch ∧ (s'.instr i).stage = b := by
  rw [List.mem_append, h.mem_iff]
  constructor
  · rintro (⟨hi, hst⟩ | hmoved)
    · refine ⟨hi, (m.stage_eq_iff h hi b).mpr ?_⟩
      by_cases hmoved : i ∈ moved
      · exact .inl ⟨hmoved, rfl⟩
      · exact .inr ⟨hmoved, hst⟩
    · have hi := (m.of_mem_moved h hmoved).1
      exact ⟨hi, (m.stage_eq_iff h hi b).mpr (.inl ⟨hmoved, rfl⟩)⟩
  · rintro ⟨hi, hst⟩
    rcases (m.stage_eq_iff h hi b).mp hst with ⟨hmoved, _⟩ | ⟨_, hst⟩
    · exact .inr hmoved
    · exact .inl ⟨hi, hst⟩

theorem Moves.mem_other_iff (m : Moves a b f moved kept s s') (h : Placed workload s) {st : Stage}
    (ha : st ≠ a) (hb : st ≠ b) (i : ℕ) :
    i ∈ s.queueOf st ↔ i < s.nextToFetch ∧ (s'.instr i).stage = st := by
  rw [h.mem_iff]
  refine and_congr_right fun hi => ?_
  rw [m.stage_eq_iff h hi]
  constructor
  · intro hst
    refine .inr ⟨fun hmoved => ha ?_, hst⟩
    exact hst.symm.trans (m.of_mem_moved h hmoved).2
  · rintro (⟨_, hst⟩ | ⟨_, hst⟩)
    · exact absurd hst.symm hb
    · exact hst

/-- Moving entries from one queue to another keeps the placement invariant. -/
theorem Placed.move (h : Placed workload s) (m : Moves a b f moved kept s s') :
    Placed workload s' where
  length_eq := by
    rw [m.instructions, SimState.length_markAll, h.length_eq]
  next_le := m.next ▸ h.next_le
  program i := (m.program_eq i).trans (h.program i)
  nodup st := by
    by_cases hdone : st = .done
    · exact hdone ▸ s'.nodup_doneList
    by_cases ha : st = a
    · rw [ha, m.source]
      exact (m.nodup_split h).sublist (List.sublist_append_right _ _)
    by_cases hb : st = b
    · subst hb
      rw [m.target hdone]
      refine (h.nodup st).append ((m.nodup_split h).sublist (List.sublist_append_left _ _)) ?_
      -- what arrives was at stage `a`, so it is not in the target queue yet
      intro i hi hmoved
      exact m.ne ((m.of_mem_moved h hmoved).2.symm.trans ((h.mem_iff st i).mp hi).2)
    · rw [m.other st ha hb hdone]
      exact h.nodup st
  mem_iff st i := by
    by_cases hdone : st = .done
    · exact hdone ▸ SimState.mem_doneList
    rw [m.next]
    by_cases ha : st = a
    · rw [ha, m.source]
      exact m.mem_kept_iff h i
    by_cases hb : st = b
    · subst hb
      rw [m.target hdone]
      exact m.mem_target_iff h i
    · rw [m.other st ha hb hdone]
      exact m.mem_other_iff h ha hb i

end Moves

/-! ### The passes as moves -/

theorem retirePass_moves (s : SimState) :
    Moves .retire .done setDone s.retireQ [] s (retirePass s) := by
  rw [retirePass_eq]
  refine ⟨setDone_setsStage, by decide, by decide, by simp [SimState.queueOf], rfl, rfl, rfl,
    fun h => absurd rfl h, ?_⟩
  intro st ha _ hdone
  cases st <;> first | rfl | exact absurd rfl ha | exact absurd rfl hdone

/-- The indices whose slots go on executing. -/
def SimState.surviving (s : SimState) : List ℕ :=
  (survivingSlots s.execSlots).map fun slot => slot.index

theorem finished_append_surviving_perm (s : SimState) :
    (s.finished ++ s.surviving).Perm (s.queueOf .execute) := by
  have hsurv : s.surviving =
      (s.execSlots.filter fun slot => 1 < slot.remaining).map fun slot => slot.index := by
    simp [SimState.surviving, survivingSlots, Function.comp_def]
  have hfilter : (s.execSlots.filter fun slot => 1 < slot.remaining) =
      s.execSlots.filter fun slot => !decide (slot.remaining ≤ 1) := by
    apply List.filter_congr
    intro slot _
    rw [← decide_not, decide_eq_decide]
    exact Nat.not_le.symm
  rw [hsurv, SimState.finished, finishingSlots, ← List.map_append, hfilter]
  exact (List.filter_append_perm _ s.execSlots).map _

theorem executeTick_moves {s s' : SimState} (h : executeTick s = .ok s') :
    Moves .execute .retire (setRetire s.cycle) s.finished s.surviving s s' := by
  obtain ⟨_, _, rfl⟩ := (executeTick_ok_iff s s').mp h
  refine ⟨setRetire_setsStage _, by decide, by decide, finished_append_surviving_perm s, rfl, rfl,
    rfl, fun _ => rfl, ?_⟩
  intro st ha hb hdone
  cases st <;>
    first | rfl | exact absurd rfl ha | exact absurd rfl hb | exact absurd rfl hdone

theorem dispatchPass_moves (config : SimulatorConfig) (s : SimState) :
    Moves .dispatch .ready setReady (dispatchMoved config s) (dispatchHeld config s) s
      (dispatchPass config s) := by
  rw [dispatchPass_eq]
  refine ⟨setReady_setsStage, by decide, by decide, Admission.taken_append_kept_perm _ _, rfl, rfl,
    rfl, fun _ => rfl, ?_⟩
  intro st ha hb hdone
  cases st <;>
    first | rfl | exact absurd rfl ha | exact absurd rfl hb | exact absurd rfl hdone

theorem issuePass_moves (config : SimulatorConfig) (s : SimState) :
    Moves .ready .execute (setExecute s.cycle) (issueMoved config s) (issueHeld config s) s
      (issuePass config s) := by
  rw [issuePass_eq]
  refine ⟨setExecute_setsStage _, by decide, by decide, Admission.taken_append_kept_perm _ _, rfl,
    rfl, rfl, fun _ => ?_, ?_⟩
  · simp [SimState.queueOf, SimState.slotFor, Function.comp_def]
  · intro st ha hb hdone
    cases st <;>
      first | rfl | exact absurd rfl ha | exact absurd rfl hb | exact absurd rfl hdone

theorem enterDispatch_moves (config : SimulatorConfig) (s : SimState) :
    Moves .decode .dispatch setDispatch (entering config s)
      (s.decodeQ.drop (dispatchRoom config s)) s (enterDispatch config s) := by
  rw [enterDispatch_eq]
  refine ⟨setDispatch_setsStage, by decide, by decide, ?_, rfl, rfl, rfl, fun _ => rfl, ?_⟩
  · rw [entering, List.take_append_drop]
    rfl
  · intro st ha hb hdone
    cases st <;>
      first | rfl | exact absurd rfl ha | exact absurd rfl hb | exact absurd rfl hdone

theorem decodePass_moves (config : SimulatorConfig) (s : SimState) :
    Moves .fetch .decode setDecode (decoding config s) (s.fetchQ.drop config.decodeWidth) s
      (decodePass config s) := by
  rw [decodePass_eq]
  refine ⟨setDecode_setsStage, by decide, by decide, ?_, rfl, rfl, rfl, fun _ => rfl, ?_⟩
  · rw [decoding, List.take_append_drop]
    rfl
  · intro st ha hb hdone
    cases st <;>
      first | rfl | exact absurd rfl ha | exact absurd rfl hb | exact absurd rfl hdone

/-! ### Fetch, and the whole cycle -/

theorem mem_fetching {config : SimulatorConfig} {s : SimState} {i : ℕ} :
    i ∈ fetching config s ↔ s.nextToFetch ≤ i ∧ i < (fetchPass config s).nextToFetch := by
  rw [fetchPass_eq, fetching, List.mem_range'_1]

theorem fetchPass_queueOf (config : SimulatorConfig) (s : SimState) {st : Stage}
    (hfetch : st ≠ .fetch) (hdone : st ≠ .done) :
    (fetchPass config s).queueOf st = s.queueOf st := by
  rw [fetchPass_eq]
  cases st <;> first | rfl | exact absurd rfl hfetch | exact absurd rfl hdone

theorem fetchPass_nextToFetch_le {workload : List Instruction} {s : SimState}
    (h : Placed workload s) (config : SimulatorConfig) :
    s.nextToFetch ≤ (fetchPass config s).nextToFetch ∧
      (fetchPass config s).nextToFetch ≤ workload.length := by
  rw [fetchPass_eq, h.length_eq]
  have := h.next_le
  constructor <;> simp only <;> omega

theorem fetchPass_stage_eq {workload : List Instruction} {s : SimState} (h : Placed workload s)
    (config : SimulatorConfig) {i : ℕ} (hi : i < (fetchPass config s).nextToFetch) :
    ((fetchPass config s).instr i).stage =
      if s.nextToFetch ≤ i then .fetch else (s.instr i).stage := by
  have hlen : i < s.instructions.length :=
    h.length_eq ▸ hi.trans_le (fetchPass_nextToFetch_le h config).2
  have hmem : i ∈ fetching config s ↔ s.nextToFetch ≤ i := by
    rw [mem_fetching]
    exact and_iff_left hi
  rw [fetchPass_eq]
  refine (congrArg Instruction.stage
    (s.instr_markAll (setFetch_setsStage s.cycle).idem (fetching config s) hlen)).trans ?_
  simp only [hmem]
  split_ifs <;> rfl

theorem mem_fetch_queue_iff {workload : List Instruction} {s : SimState} (h : Placed workload s)
    (config : SimulatorConfig) (i : ℕ) :
    i ∈ s.queueOf .fetch ++ fetching config s ↔
      i < (fetchPass config s).nextToFetch ∧ ((fetchPass config s).instr i).stage = .fetch := by
  have hle := (fetchPass_nextToFetch_le h config).1
  rw [List.mem_append, h.mem_iff, mem_fetching]
  constructor
  · rintro (⟨hi, hst⟩ | ⟨hge, hi⟩)
    · have hi' := hi.trans_le hle
      exact ⟨hi', by rw [fetchPass_stage_eq h config hi', if_neg (Nat.not_le.mpr hi), hst]⟩
    · exact ⟨hi, by rw [fetchPass_stage_eq h config hi, if_pos hge]⟩
  · rintro ⟨hi, hst⟩
    rw [fetchPass_stage_eq h config hi] at hst
    by_cases hge : s.nextToFetch ≤ i
    · exact .inr ⟨hge, hi⟩
    · exact .inl ⟨Nat.lt_of_not_le hge, by rwa [if_neg hge] at hst⟩

/-- Fetching brings nothing to a later stage. -/
theorem mem_unfetched_queue_iff {workload : List Instruction} {s : SimState} (h : Placed workload s)
    (config : SimulatorConfig) {st : Stage} (hfetch : st ≠ .fetch) (i : ℕ) :
    i ∈ s.queueOf st ↔
      i < (fetchPass config s).nextToFetch ∧ ((fetchPass config s).instr i).stage = st := by
  have hle := (fetchPass_nextToFetch_le h config).1
  rw [h.mem_iff]
  constructor
  · rintro ⟨hi, hst⟩
    have hi' := hi.trans_le hle
    exact ⟨hi', by rw [fetchPass_stage_eq h config hi', if_neg (Nat.not_le.mpr hi), hst]⟩
  · rintro ⟨hi, hst⟩
    rw [fetchPass_stage_eq h config hi] at hst
    split_ifs at hst with hge
    · exact absurd hst.symm hfetch
    · exact ⟨Nat.lt_of_not_le hge, hst⟩

theorem Placed.fetch {workload : List Instruction} {s : SimState} (h : Placed workload s)
    (config : SimulatorConfig) : Placed workload (fetchPass config s) := by
  have hqueue : (fetchPass config s).queueOf .fetch =
      s.queueOf .fetch ++ fetching config s := by
    rw [fetchPass_eq]
    rfl
  refine ⟨?_, (fetchPass_nextToFetch_le h config).2, ?_, ?_, ?_⟩
  · rw [fetchPass_eq]
    exact (s.length_markAll _ _).trans h.length_eq
  · intro i
    rw [← h.program i, fetchPass_eq]
    exact s.field_markAll Instruction.program (setFetch_setsStage s.cycle).program _ i
  · intro st
    by_cases hdone : st = .done
    · exact hdone ▸ SimState.nodup_doneList _
    by_cases hfetch : st = .fetch
    · rw [hfetch, hqueue]
      refine (h.nodup .fetch).append List.nodup_range' ?_
      intro i hi hnew
      have hold := ((h.mem_iff .fetch i).mp hi).1
      exact Nat.not_le.mpr hold (mem_fetching.mp hnew).1
    · rw [fetchPass_queueOf config s hfetch hdone]
      exact h.nodup st
  · intro st i
    by_cases hdone : st = .done
    · exact hdone ▸ SimState.mem_doneList
    by_cases hfetch : st = .fetch
    · rw [hfetch, hqueue]
      exact mem_fetch_queue_iff h config i
    · rw [fetchPass_queueOf config s hfetch hdone]
      exact mem_unfetched_queue_iff h config hfetch i

theorem Placed.record {workload : List Instruction} {s : SimState} (h : Placed workload s) :
    Placed workload (recordCycle s) := by
  have hqueue : ∀ st, (recordCycle s).queueOf st = s.queueOf st := by
    intro st
    cases st <;> rfl
  exact ⟨h.length_eq, h.next_le, h.program, fun st => hqueue st ▸ h.nodup st,
    fun st i => by rw [hqueue]; exact h.mem_iff st i⟩

theorem Placed.start {workload : List Instruction} {s s' : SimState}
    (h : Placed workload s) (hs : dispatchStart s = .ok s') : Placed workload s' :=
  (h.move (retirePass_moves s)).move (executeTick_moves hs)

theorem Placed.cycle {workload : List Instruction} {config : SimulatorConfig} {s s' : SimState}
    (h : Placed workload s) (hs : cycleBody config s = .ok s') : Placed workload s' := by
  obtain ⟨t, ht, rfl⟩ := cycleBody_ok_iff.mp hs
  have h := h.start ht
  have h := h.move (dispatchPass_moves config _)
  have h := h.move (issuePass_moves config _)
  have h := h.move (enterDispatch_moves config _)
  have h := h.move (decodePass_moves config _)
  exact (h.fetch config).record

theorem placed_initState (workload : List Instruction) : Placed workload (initState workload) where
  length_eq := rfl
  next_le := Nat.zero_le _
  program _ := rfl
  nodup st := by cases st <;> exact List.nodup_nil
  mem_iff st i := by cases st <;> simp [initState, SimState.queueOf, SimState.doneList]

theorem placed_of_reachesIn {workload : List Instruction} {config : SimulatorConfig} {k : ℕ}
    {s : SimState} (h : ReachesIn workload config k s) : Placed workload s :=
  WhileLoop.ReachesIn.invariant (fun _ s => Placed workload s) h (placed_initState workload)
    (fun _ _ _ hv _ hb => hv.cycle hb)

theorem Placed.eq_done_of_exit {workload : List Instruction} {s : SimState}
    (h : Placed workload s) (hexit : hasWorkLeft s = false) {i : ℕ} (hi : i < workload.length) :
    (s.instr i).stage = .done := by
  obtain ⟨hnext, hf, hd, hp, hr, ht, he⟩ := hasWorkLeft_eq_false.mp hexit
  have hmem := (h.mem_iff (s.instr i).stage i).mpr ⟨by have := h.length_eq; omega, rfl⟩
  cases hst : (s.instr i).stage <;> rw [hst] at hmem <;>
    simp_all [SimState.queueOf]

end AccelSim
