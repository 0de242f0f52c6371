import AccelSimLite.Lib.Admission
import AccelSimLite.Simulator.Defs
import Mathlib.Algebra.BigOperators.Group.List.Basic
import Mathlib.Data.List.ReduceOption
import Mathlib.Data.UInt

/-!
# What each pass of a cycle does

Every pass is a loop that moves entries of one queue to the next. The lemmas
below give each of them in closed form: the entries that move, the fields of
their instructions that are written, and the statistics that change. Nothing
after this file unfolds a loop of the simulator.
-/

namespace AccelSim

namespace SimState

/-- Write fields of the instructions at a list of indices. -/
def markAll (s : SimState) (f : Instruction → Instruction) (moved : List ℕ) : SimState :=
  { s with instructions := moved.foldl (fun l idx => l.modify idx f) s.instructions }

theorem instr_eq_getElem (s : SimState) {i : ℕ} (hi : i < s.instructions.length) :
    s.instr i = s.instructions[i] := by
  rw [instr, List.getD_eq_getElem?_getD, List.getElem?_eq_getElem hi, Option.getD_some]

theorem length_modifyInstr (s : SimState) (idx : ℕ) (f : Instruction → Instruction) :
    (s.modifyInstr idx f).instructions.length = s.instructions.length := by
  simp [modifyInstr]

theorem instr_modifyInstr (s : SimState) (idx : ℕ) (f : Instruction → Instruction) (i : ℕ) :
    (s.modifyInstr idx f).instr i =
      if i = idx ∧ i < s.instructions.length then f (s.instr i) else s.instr i := by
  simp only [modifyInstr, instr, List.getD_eq_getElem?_getD, List.getElem?_modify]
  by_cases hi : i < s.instructions.length
  · by_cases hidx : idx = i
    · simp [hidx, hi]
    · simp [hidx, Ne.symm hidx]
  · simp [hi]

theorem markAll_cons (s : SimState) (f : Instruction → Instruction) (idx : ℕ) (l : List ℕ) :
    s.markAll f (idx :: l) = (s.modifyInstr idx f).markAll f l := rfl

@[simp] theorem length_markAll (s : SimState) (f : Instruction → Instruction) (l : List ℕ) :
    (s.markAll f l).instructions.length = s.instructions.length := by
  induction l generalizing s with
  | nil => rfl
  | cons idx l ih => rw [markAll_cons, ih, length_modifyInstr]

/-- Fields that are set to constants are set exactly at the listed indices. -/
theorem instr_markAll (s : SimState) {f : Instruction → Instruction} (hf : ∀ i, f (f i) = f i)
    (l : List ℕ) {i : ℕ} (hi : i < s.instructions.length) :
    (s.markAll f l).instr i = if i ∈ l then f (s.instr i) else s.instr i := by
  induction l generalizing s with
  | nil => rfl
  | cons idx l ih =>
    rw [markAll_cons, ih _ (by rwa [length_modifyInstr]), instr_modifyInstr]
    by_cases hidx : i = idx
    · simp [hidx, hf, hidx ▸ hi]
    · simp [hidx]

theorem instr_markAll_of_not_mem (s : SimState) (f : Instruction → Instruction) {l : List ℕ}
    {i : ℕ} (hi : i ∉ l) : (s.markAll f l).instr i = s.instr i := by
  induction l generalizing s with
  | nil => rfl
  | cons idx l ih =>
    rw [List.mem_cons, not_or] at hi
    rw [markAll_cons, ih _ hi.2, instr_modifyInstr, if_neg (fun h => hi.1 h.1)]

/-- A field that is not written keeps its value. -/
theorem field_markAll {γ : Type*} (p : Instruction → γ) {f : Instruction → Instruction}
    (hp : ∀ i, p (f i) = p i) (s : SimState) (l : List ℕ) (i : ℕ) :
    p ((s.markAll f l).instr i) = p (s.instr i) := by
  induction l generalizing s with
  | nil => rfl
  | cons idx l ih =>
    rw [markAll_cons, ih, instr_modifyInstr]
    split_ifs
    · exact hp _
    · rfl

end SimState

/-! ### Retire -/

def setDone (i : Instruction) : Instruction := { i with stage := .done }

/-- The latency an instruction adds to the total when it retires. -/
def latencyOf (i : Instruction) : UInt64 :=
  UInt64.ofNat i.completeCycle - UInt64.ofNat i.enqueueCycle

open scoped UInt64.CommRing in
theorem retirePass_eq (s : SimState) :
    retirePass s =
      { s.markAll setDone s.retireQ with
        retireQ := []
        retiredIds := s.retiredIds ∪ (s.retireQ.map fun i => (s.instr i).id).toFinset
        stats := { s.stats with
          completedOps := s.stats.completedOps + s.retireQ.length
          totalLatency := s.stats.totalLatency +
            (s.retireQ.map fun i => latencyOf (s.instr i)).sum } } := by
  unfold retirePass
  generalize hq : s.retireQ = q
  induction q generalizing s with
  | nil =>
    cases s
    cases hq
    simp [SimState.markAll]
  | cons idx rest ih =>
    have hstep : retireIter s =
        { s.modifyInstr idx setDone with
          retireQ := rest
          retiredIds := insert (s.instr idx).id s.retiredIds
          stats := { s.stats with
            completedOps := s.stats.completedOps + 1
            totalLatency := s.stats.totalLatency + latencyOf (s.instr idx) } } := by
      unfold retireIter
      rw [hq]
      rfl
    -- the ids and latencies of the rest are those of the state before the loop
    have hid : ∀ i, ((s.modifyInstr idx setDone).instr i).id = (s.instr i).id :=
      s.field_markAll (f := setDone) Instruction.id (fun _ => rfl) [idx]
    have hlat : ∀ i, latencyOf ((s.modifyInstr idx setDone).instr i) = latencyOf (s.instr i) :=
      s.field_markAll (f := setDone) latencyOf (fun _ => rfl) [idx]
    rw [List.length_cons, Function.iterate_succ_apply, hstep, ih _ rfl]
    simp only [SimState.instr] at hid hlat
    apply SimState.ext
    case stats =>
      simp only [SimState.instr, hlat, List.map_cons, List.sum_cons]
      congr 1
      · omega
      · rw [add_assoc]
    case retiredIds =>
      simp only [SimState.instr, hid, List.map_cons, List.toFinset_cons]
      rw [Finset.insert_union, Finset.union_insert]
    all_goals rfl

/-! ### Execute -/

def setRetire (cycle : ℕ) (i : Instruction) : Instruction :=
  { i with completeCycle := cycle, stage := .retire }

/-- The slots that reach zero in this cycle's tick. -/
def finishingSlots (slots : List ExecSlot) : List ExecSlot :=
  slots.filter fun slot => slot.remaining ≤ 1

/-- The slots that do not, one tick further. -/
def survivingSlots (slots : List ExecSlot) : List ExecSlot :=
  (slots.filter fun slot => 1 < slot.remaining).map
    fun slot => { slot with remaining := slot.remaining - 1 }

/-- How many slots hold a memory port. -/
def memorySlots (slots : List ExecSlot) : ℕ := slots.countP fun slot => slot.usesMemory

/-- How many slots hold a compute unit. -/
def computeSlots (slots : List ExecSlot) : ℕ := slots.countP fun slot => !slot.usesMemory

theorem finishingSlots_cons_of_le {slot : ExecSlot} (h : slot.remaining ≤ 1)
    (slots : List ExecSlot) :
    finishingSlots (slot :: slots) = slot :: finishingSlots slots ∧
      survivingSlots (slot :: slots) = survivingSlots slots := by
  constructor
  · simp [finishingSlots, h]
  · simp [survivingSlots, Nat.not_lt.mpr h]

theorem finishingSlots_cons_of_lt {slot : ExecSlot} (h : 1 < slot.remaining)
    (slots : List ExecSlot) :
    finishingSlots (slot :: slots) = finishingSlots slots ∧
      survivingSlots (slot :: slots) =
        { slot with remaining := slot.remaining - 1 } :: survivingSlots slots := by
  constructor
  · simp [finishingSlots, Nat.not_le.mpr h]
  · simp [survivingSlots, h]

theorem memorySlots_cons (slot : ExecSlot) (slots : List ExecSlot) :
    memorySlots (slot :: slots) = memorySlots slots + if slot.usesMemory then 1 else 0 :=
  List.countP_cons

theorem computeSlots_cons (slot : ExecSlot) (slots : List ExecSlot) :
    computeSlots (slot :: slots) = computeSlots slots + if slot.usesMemory then 0 else 1 := by
  rw [computeSlots, List.countP_cons]
  cases slot.usesMemory <;> rfl

/-- The tick of one slot; a slot that has no ticks left keeps none. -/
theorem tick_eq (slot : ExecSlot) :
    (if slot.remaining > 0 then { slot with remaining := slot.remaining - 1 } else slot) =
      { slot with remaining := slot.remaining - 1 } := by
  obtain ⟨index, remaining, usesMemory⟩ := slot
  cases remaining <;> rfl

/-- The loop over `exec_slots` succeeds exactly when the counters cover the
    finishing slots, and then releases one unit for each of them. -/
theorem tickSlots_ok_iff (slots remainingSlots : List ExecSlot) (finished : List ℕ)
    (memoryInUse computeInUse : ℕ) (out : List ExecSlot × List ℕ × ℕ × ℕ) :
    tickSlots slots remainingSlots finished memoryInUse computeInUse = .ok out ↔
      memorySlots (finishingSlots slots) ≤ memoryInUse ∧
      computeSlots (finishingSlots slots) ≤ computeInUse ∧
      out = (remainingSlots ++ survivingSlots slots,
        finished ++ (finishingSlots slots).map (fun slot => slot.index),
        memoryInUse - memorySlots (finishingSlots slots),
        computeInUse - computeSlots (finishingSlots slots)) := by
  induction slots generalizing remainingSlots finished memoryInUse computeInUse with
  | nil =>
    simp [tickSlots, finishingSlots, survivingSlots, memorySlots, computeSlots, eq_comm]
  | cons slot slots ih =>
    -- the induction is over the slots to come; the accumulators are arbitrary
    simp only [tickSlots, tick_eq]
    by_cases hfin : slot.remaining ≤ 1
    · obtain ⟨hf, hs⟩ := finishingSlots_cons_of_le hfin slots
      rw [if_pos (Nat.sub_eq_zero_of_le hfin), hf, hs, memorySlots_cons, computeSlots_cons]
      cases hmem : slot.usesMemory with
      | true =>
        cases memoryInUse with
        | zero => simp
        | succ m =>
          simp only [if_true, if_false, Nat.succ_ne_zero, Nat.add_sub_cancel, Nat.add_zero, ih,
            Nat.add_le_add_iff_right, Nat.add_sub_add_right, List.append_assoc,
            List.singleton_append, List.map_cons]
      | false =>
        cases computeInUse with
        | zero => simp
        | succ c =>
          simp only [if_false, Bool.false_eq_true, Nat.succ_ne_zero, Nat.add_sub_cancel,
            Nat.add_zero, ih, Nat.add_le_add_iff_right, Nat.add_sub_add_right, List.append_assoc,
            List.singleton_append, List.map_cons]
    · have hlt := Nat.lt_of_not_le hfin
      obtain ⟨hf, hs⟩ := finishingSlots_cons_of_lt hlt slots
      rw [if_neg (Nat.sub_ne_zero_of_lt hlt), hf, hs, ih]
      simp only [List.append_assoc, List.singleton_append]

theorem foldl_finishOne (s : SimState) (finished : List ℕ) :
    finished.foldl finishOne s =
      { s.markAll (setRetire s.cycle) finished with retireQ := s.retireQ ++ finished } := by
  induction finished generalizing s with
  | nil => simp [SimState.markAll]
  | cons idx rest ih =>
    rw [List.foldl_cons, ih]
    apply SimState.ext
    case retireQ => simp [finishOne]
    all_goals rfl

/-- The indices that complete in this cycle's tick. -/
def SimState.finished (s : SimState) : List ℕ :=
  (finishingSlots s.execSlots).map fun slot => slot.index

theorem executeTick_ok_iff (s s' : SimState) :
    executeTick s = .ok s' ↔
      memorySlots (finishingSlots s.execSlots) ≤ s.memoryInUse ∧
      computeSlots (finishingSlots s.execSlots) ≤ s.computeInUse ∧
      s' =
        { s.markAll (setRetire s.cycle) s.finished with
          retireQ := s.retireQ ++ s.finished
          execSlots := survivingSlots s.execSlots
          memoryInUse := s.memoryInUse - memorySlots (finishingSlots s.execSlots)
          computeInUse := s.computeInUse - computeSlots (finishingSlots s.execSlots) } := by
  unfold executeTick
  constructor
  · intro h
    cases hticks : tickSlots s.execSlots [] [] s.memoryInUse s.computeInUse with
    | error e => simp [hticks] at h
    | ok out =>
      obtain ⟨hm, hc, rfl⟩ := (tickSlots_ok_iff _ _ _ _ _ _).mp hticks
      rw [hticks] at h
      simp only [foldl_finishOne, Except.ok.injEq] at h
      exact ⟨hm, hc, h.symm⟩
  · rintro ⟨hm, hc, rfl⟩
    rw [(tickSlots_ok_iff _ _ _ _ _ _).mpr ⟨hm, hc, rfl⟩]
    simp only [foldl_finishOne]
    rfl

/-! ### Dispatch -/

def setReady (i : Instruction) : Instruction := { i with stage := .ready }

/-- What the dispatch loop decides for one entry, given the size of `ready_q`. -/
def dispatchVisit (config : SimulatorConfig) (s : SimState) (size idx : ℕ) :
    Except StallReason ℕ :=
  if depsSatisfied (s.instr idx) s.retiredIds then
    if size < config.readyQueueCapacity then .ok (size + 1) else .error .readyQueueFull
  else .error .waitingDependency

/-- The entries that move to `ready_q`. -/
def dispatchMoved (config : SimulatorConfig) (s : SimState) : List ℕ :=
  Admission.taken (dispatchVisit config s) s.readyQ.length s.dispatchQ

/-- The entries that stay in `dispatch_q`. -/
def dispatchHeld (config : SimulatorConfig) (s : SimState) : List ℕ :=
  Admission.kept (dispatchVisit config s) s.readyQ.length s.dispatchQ

/-- The stall reasons of the entries that stay in `dispatch_q`. -/
def dispatchStalls (config : SimulatorConfig) (s : SimState) : List StallReason :=
  (Admission.refused (dispatchVisit config s) s.readyQ.length s.dispatchQ).map Prod.snd

theorem dispatchVisit_ok_iff {config : SimulatorConfig} {s : SimState} {size size' idx : ℕ} :
    dispatchVisit config s size idx = .ok size' ↔
      depsSatisfied (s.instr idx) s.retiredIds = true ∧ size < config.readyQueueCapacity ∧
        size' = size + 1 := by
  constructor
  · intro h
    unfold dispatchVisit at h
    split_ifs at h with hdeps hroom
    cases h
    exact ⟨hdeps, hroom, rfl⟩
  · rintro ⟨hdeps, hroom, rfl⟩
    rw [dispatchVisit, if_pos hdeps, if_pos hroom]

theorem dispatchVisit_grows (config : SimulatorConfig) (s : SimState) (size idx size' : ℕ)
    (h : dispatchVisit config s size idx = .ok size') : size ≤ size' := by
  obtain ⟨_, _, rfl⟩ := dispatchVisit_ok_iff.mp h
  exact Nat.le_succ size

theorem dispatchVisit_congr (config : SimulatorConfig) {s s' : SimState}
    (hdeps : ∀ i, (s'.instr i).deps = (s.instr i).deps) (hids : s'.retiredIds = s.retiredIds) :
    dispatchVisit config s' = dispatchVisit config s := by
  funext size idx
  simp [dispatchVisit, depsSatisfied, hdeps, hids]

/-- An iteration of the dispatch loop whose entry is taken. -/
theorem dispatchIter_of_ok {config : SimulatorConfig} {s : SimState} {idx size : ℕ} {rest : List ℕ}
    (hq : s.dispatchQ = idx :: rest) (hv : dispatchVisit config s s.readyQ.length idx = .ok size) :
    dispatchIter config s =
      { s.modifyInstr idx setReady with
        dispatchQ := rest
        readyQ := s.readyQ ++ [idx] } := by
  obtain ⟨hdeps, hroom, _⟩ := dispatchVisit_ok_iff.mp hv
  simp only [dispatchIter, hq, hdeps, hroom, if_true]
  rfl

/-- An iteration of the dispatch loop whose entry is refused. -/
theorem dispatchIter_of_error {config : SimulatorConfig} {s : SimState} {idx : ℕ} {rest : List ℕ}
    {reason : StallReason} (hq : s.dispatchQ = idx :: rest)
    (hv : dispatchVisit config s s.readyQ.length idx = .error reason) :
    dispatchIter config s = { s.bumpStall reason with dispatchQ := rest ++ [idx] } := by
  unfold dispatchVisit at hv
  split_ifs at hv with hdeps hroom
  · cases hv
    simp only [dispatchIter, hq, hdeps, hroom, if_true, if_false]
  · cases hv
    simp only [dispatchIter, hq, hdeps, Bool.false_eq_true, if_false]

theorem dispatchIter_iterate (config : SimulatorConfig) (todo held : List ℕ) (s : SimState)
    (hq : s.dispatchQ = todo ++ held) :
    (dispatchIter config)^[todo.length] s =
      { s.markAll setReady (Admission.taken (dispatchVisit config s) s.readyQ.length todo) with
        dispatchQ := held ++ Admission.kept (dispatchVisit config s) s.readyQ.length todo
        readyQ := s.readyQ ++ Admission.taken (dispatchVisit config s) s.readyQ.length todo
        stats := { s.stats with
          stallCounts := s.stats.stallCounts.bumpAll
            ((Admission.refused (dispatchVisit config s) s.readyQ.length todo).map
              Prod.snd) } } := by
  induction todo generalizing held s with
  | nil =>
    cases s
    cases hq
    simp [SimState.markAll]
  | cons idx rest ih =>
    -- `held` is what the loop has put back so far, behind what it has still to visit
    have hq : s.dispatchQ = idx :: (rest ++ held) := hq
    rw [List.length_cons, Function.iterate_succ_apply]
    cases hv : dispatchVisit config s s.readyQ.length idx with
    | ok size =>
      -- the size the visit returns is that of the ready queue in the next iteration
      have hsize : size = (s.readyQ ++ [idx]).length := by
        rw [List.length_append]
        exact (dispatchVisit_ok_iff.mp hv).2.2
      have hvisit : dispatchVisit config
          { s.modifyInstr idx setReady with
            dispatchQ := rest ++ held
            readyQ := s.readyQ ++ [idx] } = dispatchVisit config s :=
        dispatchVisit_congr config
          (s.field_markAll (f := setReady) Instruction.deps (fun _ => rfl) [idx]) rfl
      rw [dispatchIter_of_ok hq hv, ih held _ rfl, hvisit, Admission.taken_cons_ok hv,
        Admission.kept_cons_ok hv, Admission.refused_cons_ok hv, hsize]
      apply SimState.ext
      case readyQ => exact List.append_assoc s.readyQ [idx] _
      all_goals rfl
    | error reason =>
      rw [dispatchIter_of_error hq hv, ih (held ++ [idx]) _ (List.append_assoc rest held [idx]),
        Admission.taken_cons_error hv, Admission.kept_cons_error hv,
        Admission.refused_cons_error hv]
      apply SimState.ext
      case dispatchQ => exact List.append_assoc held [idx] _
      all_goals rfl

theorem dispatchPass_eq (config : SimulatorConfig) (s : SimState) :
    dispatchPass config s =
      { s.markAll setReady (dispatchMoved config s) with
        dispatchQ := dispatchHeld config s
        readyQ := s.readyQ ++ dispatchMoved config s
        stats := { s.stats with
          stallCounts := s.stats.stallCounts.bumpAll (dispatchStalls config s) } } :=
  dispatchIter_iterate config s.dispatchQ [] s (List.append_nil _).symm

/-! ### Issue -/

def setExecute (cycle : ℕ) (i : Instruction) : Instruction :=
  { i with stage := .execute, issueCycle := cycle }

/-- The resources the issue loop counts. -/
structure IssueUse where
  issued : ℕ
  memoryInUse : ℕ
  computeInUse : ℕ

def SimState.issueUse (s : SimState) : IssueUse := ⟨0, s.memoryInUse, s.computeInUse⟩

/-- What the issue loop decides for one entry. An entry refused at the width
    test has no stall reason. -/
def issueVisit (config : SimulatorConfig) (s : SimState) (use : IssueUse) (idx : ℕ) :
    Except (Option StallReason) IssueUse :=
  if config.issueWidth ≤ use.issued then .error none
  else if isMemoryOp (s.instr idx).type then
    if config.memoryPorts ≤ use.memoryInUse then .error (some .noMemoryPort)
    else .ok ⟨use.issued + 1, use.memoryInUse + 1, use.computeInUse⟩
  else
    if config.computeUnits ≤ use.computeInUse then .error (some .noComputeUnit)
    else .ok ⟨use.issued + 1, use.memoryInUse, use.computeInUse + 1⟩

/-- The entries that are issued. -/
def issueMoved (config : SimulatorConfig) (s : SimState) : List ℕ :=
  Admission.taken (issueVisit config s) s.issueUse s.readyQ

/-- The entries that stay in `ready_q`. -/
def issueHeld (config : SimulatorConfig) (s : SimState) : List ℕ :=
  Admission.kept (issueVisit config s) s.issueUse s.readyQ

/-- What the entries that stay in `ready_q` are refused for, one for each of them. -/
def issueStalls (config : SimulatorConfig) (s : SimState) : List (Option StallReason) :=
  (Admission.refused (issueVisit config s) s.issueUse s.readyQ).map Prod.snd

/-- The resources counted when the issue loop ends. -/
def issueFinal (config : SimulatorConfig) (s : SimState) : IssueUse :=
  Admission.final (issueVisit config s) s.issueUse s.readyQ

/-- The slot an instruction executes in. -/
def SimState.slotFor (s : SimState) (idx : ℕ) : ExecSlot :=
  ⟨idx, (s.instr idx).executeLatency, isMemoryOp (s.instr idx).type⟩

theorem issueVisit_congr (config : SimulatorConfig) {s s' : SimState}
    (htype : ∀ i, (s'.instr i).type = (s.instr i).type) :
    issueVisit config s' = issueVisit config s := by
  funext use idx
  simp [issueVisit, htype]

/-- An iteration of the issue loop whose entry is taken. -/
theorem issueIter_of_ok {config : SimulatorConfig} {s : SimState} {idx issued : ℕ} {rest : List ℕ}
    {use : IssueUse} (hq : s.readyQ = idx :: rest)
    (hv : issueVisit config s ⟨issued, s.memoryInUse, s.computeInUse⟩ idx = .ok use) :
    issueIter config (s, issued) =
      ({ s.modifyInstr idx (setExecute s.cycle) with
          readyQ := rest
          execSlots := s.execSlots ++ [s.slotFor idx]
          memoryInUse := use.memoryInUse
          computeInUse := use.computeInUse }, use.issued) := by
  unfold issueVisit at hv
  split_ifs at hv with hwidth hmem hport hunit
  · cases hv
    simp only [issueIter, hq, hwidth, hmem, hport, SimState.slotFor, if_true, if_false]
    rfl
  · cases hv
    simp only [issueIter, hq, hwidth, hmem, hunit, SimState.slotFor, Bool.false_eq_true, if_false]
    rfl

/-- An iteration of the issue loop whose entry is refused. -/
theorem issueIter_of_error {config : SimulatorConfig} {s : SimState} {idx issued : ℕ}
    {rest : List ℕ} {reason : Option StallReason} (hq : s.readyQ = idx :: rest)
    (hv : issueVisit config s ⟨issued, s.memoryInUse, s.computeInUse⟩ idx = .error reason) :
    issueIter config (s, issued) =
      ({ s with
          readyQ := rest ++ [idx]
          stats := { s.stats with
            stallCounts := s.stats.stallCounts.bumpAll [reason].reduceOption } }, issued) := by
  unfold issueVisit at hv
  split_ifs at hv with hwidth hmem hport hunit
  · cases hv
    simp [issueIter, hq, hwidth]
  · cases hv
    simp [issueIter, hq, hwidth, hmem, hport, SimState.bumpStall]
  · cases hv
    simp [issueIter, hq, hwidth, hmem, hunit, SimState.bumpStall]

/-- Starting an instruction leaves what its slot is made of as it is. -/
theorem slotFor_start (s : SimState) (idx : ℕ) :
    (s.modifyInstr idx (setExecute s.cycle)).slotFor = s.slotFor := by
  funext i
  have htype := s.field_markAll (f := setExecute s.cycle) Instruction.type (fun _ => rfl) [idx] i
  have hlat := s.field_markAll (f := setExecute s.cycle) Instruction.executeLatency
    (fun _ => rfl) [idx] i
  exact congrArg₂ (fun l t => (⟨i, l, isMemoryOp t⟩ : ExecSlot)) hlat htype

theorem issueIter_iterate (config : SimulatorConfig) (todo held : List ℕ) (s : SimState)
    (issued : ℕ) (hq : s.readyQ = todo ++ held) :
    (issueIter config)^[todo.length] (s, issued) =
      let use : IssueUse := ⟨issued, s.memoryInUse, s.computeInUse⟩
      let after := Admission.final (issueVisit config s) use todo
      ({ s.markAll (setExecute s.cycle) (Admission.taken (issueVisit config s) use todo) with
          readyQ := held ++ Admission.kept (issueVisit config s) use todo
          execSlots := s.execSlots ++
            (Admission.taken (issueVisit config s) use todo).map s.slotFor
          memoryInUse := after.memoryInUse
          computeInUse := after.computeInUse
          stats := { s.stats with
            stallCounts := s.stats.stallCounts.bumpAll
              ((Admission.refused (issueVisit config s) use todo).map
                Prod.snd).reduceOption } }, after.issued) := by
  induction todo generalizing held s issued with
  | nil =>
    cases s
    cases hq
    simp [SimState.markAll]
  | cons idx rest ih =>
    have hq : s.readyQ = idx :: (rest ++ held) := hq
    rw [List.length_cons, Function.iterate_succ_apply]
    cases hv : issueVisit config s ⟨issued, s.memoryInUse, s.computeInUse⟩ idx with
    | ok use =>
      have hvisit : issueVisit config
          { s.modifyInstr idx (setExecute s.cycle) with
            readyQ := rest ++ held
            execSlots := s.execSlots ++ [s.slotFor idx]
            memoryInUse := use.memoryInUse
            computeInUse := use.computeInUse } = issueVisit config s :=
        issueVisit_congr config
          (s.field_markAll (f := setExecute s.cycle) Instruction.type (fun _ => rfl) [idx])
      rw [issueIter_of_ok hq hv, ih held _ use.issued rfl, hvisit]
      simp only [Admission.taken_cons_ok hv, Admission.kept_cons_ok hv,
        Admission.refused_cons_ok hv, Admission.final_cons_ok hv]
      apply Prod.ext
      case snd => rfl
      apply SimState.ext
      case execSlots =>
        simp only [List.map_cons, List.append_assoc, List.singleton_append]
        congr 3
        exact slotFor_start s idx
      all_goals rfl
    | error reason =>
      rw [issueIter_of_error hq hv,
        ih (held ++ [idx]) _ issued (List.append_assoc rest held [idx])]
      simp only [Admission.taken_cons_error hv, Admission.kept_cons_error hv,
        Admission.refused_cons_error hv, Admission.final_cons_error hv]
      apply Prod.ext
      case snd => rfl
      apply SimState.ext
      case readyQ => exact List.append_assoc held [idx] _
      case stats => cases reason <;> rfl
      all_goals rfl

theorem issuePass_eq (config : SimulatorConfig) (s : SimState) :
    issuePass config s =
      { s.markAll (setExecute s.cycle) (issueMoved config s) with
        readyQ := issueHeld config s
        execSlots := s.execSlots ++ (issueMoved config s).map s.slotFor
        memoryInUse := (issueFinal config s).memoryInUse
        computeInUse := (issueFinal config s).computeInUse
        stats := { s.stats with
          stallCounts := s.stats.stallCounts.bumpAll (issueStalls config s).reduceOption } } :=
  congrArg Prod.fst (issueIter_iterate config s.readyQ [] s 0 (List.append_nil _).symm)

/-! ### The front end -/

def setDispatch (i : Instruction) : Instruction := { i with stage := .dispatch }

def setDecode (i : Instruction) : Instruction := { i with stage := .decode }

def setFetch (cycle : ℕ) (i : Instruction) : Instruction :=
  { i with stage := .fetch, enqueueCycle := cycle }

/-- How many entries the loop into `dispatch_q` can move when decode never runs out. -/
def dispatchRoom (config : SimulatorConfig) (s : SimState) : ℕ :=
  min config.dispatchWidth (config.dispatchQueueCapacity - s.dispatchQ.length)

/-- The entries that move from `decode_q` to `dispatch_q`. -/
def entering (config : SimulatorConfig) (s : SimState) : List ℕ :=
  s.decodeQ.take (dispatchRoom config s)

/-- The stall the loop into `dispatch_q` charges when it meets a full queue. -/
def enteringStalls (config : SimulatorConfig) (s : SimState) : List StallReason :=
  if dispatchRoom config s < config.dispatchWidth ∧ dispatchRoom config s < s.decodeQ.length
  then [.dispatchQueueFull] else []

/-- The entries that move from `fetch_q` to `decode_q`. -/
def decoding (config : SimulatorConfig) (s : SimState) : List ℕ :=
  s.fetchQ.take config.decodeWidth

/-- The indices that are fetched. -/
def fetching (config : SimulatorConfig) (s : SimState) : List ℕ :=
  List.range' s.nextToFetch (min config.fetchWidth (s.instructions.length - s.nextToFetch))

theorem enterDispatchLoop_eq (config : SimulatorConfig) (width : ℕ) (s : SimState) :
    enterDispatchLoop config width s =
      let k := min width (config.dispatchQueueCapacity - s.dispatchQ.length)
      { s.markAll setDispatch (s.decodeQ.take k) with
        decodeQ := s.decodeQ.drop k
        dispatchQ := s.dispatchQ ++ s.decodeQ.take k
        stats := { s.stats with
          stallCounts := s.stats.stallCounts.bumpAll
            (if k < width ∧ k < s.decodeQ.length then [.dispatchQueueFull] else []) } } := by
  induction width generalizing s with
  | zero => simp [enterDispatchLoop, SimState.markAll]
  | succ width ih =>
    rw [enterDispatchLoop]
    cases hq : s.decodeQ with
    | nil =>
      cases s
      cases hq
      simp [SimState.markAll]
    | cons idx rest =>
      dsimp only
      by_cases hfull : config.dispatchQueueCapacity ≤ s.dispatchQ.length
      · rw [if_pos hfull, Nat.sub_eq_zero_of_le hfull]
        cases s
        cases hq
        simp [SimState.markAll, SimState.bumpStall]
      · have hk : min (width + 1) (config.dispatchQueueCapacity - s.dispatchQ.length) =
            min width (config.dispatchQueueCapacity - (s.dispatchQ ++ [idx]).length) + 1 := by
          rw [List.length_append, List.length_singleton]
          omega
        rw [if_neg hfull, ih, hk]
        apply SimState.ext
        case dispatchQ => simp
        case stats =>
          simp only [List.length_cons, Nat.add_lt_add_iff_right]
          rfl
        all_goals rfl

theorem enterDispatch_eq (config : SimulatorConfig) (s : SimState) :
    enterDispatch config s =
      { s.markAll setDispatch (entering config s) with
        decodeQ := s.decodeQ.drop (dispatchRoom config s)
        dispatchQ := s.dispatchQ ++ entering config s
        stats := { s.stats with
          stallCounts := s.stats.stallCounts.bumpAll (enteringStalls config s) } } :=
  enterDispatchLoop_eq config config.dispatchWidth s

theorem decodeLoop_eq (width : ℕ) (s : SimState) :
    decodeLoop width s =
      { s.markAll setDecode (s.fetchQ.take width) with
        fetchQ := s.fetchQ.drop width
        decodeQ := s.decodeQ ++ s.fetchQ.take width } := by
  induction width generalizing s with
  | zero => simp [decodeLoop, SimState.markAll]
  | succ width ih =>
    rw [decodeLoop]
    cases hq : s.fetchQ with
    | nil =>
      cases s
      cases hq
      simp [SimState.markAll]
    | cons idx rest =>
      dsimp only
      rw [ih]
      apply SimState.ext
      case decodeQ => simp
      all_goals rfl

theorem decodePass_eq (config : SimulatorConfig) (s : SimState) :
    decodePass config s =
      { s.markAll setDecode (decoding config s) with
        fetchQ := s.fetchQ.drop config.decodeWidth
        decodeQ := s.decodeQ ++ decoding config s } :=
  decodeLoop_eq config.decodeWidth s

theorem fetchLoop_eq (width : ℕ) (s : SimState) :
    fetchLoop width s =
      let k := min width (s.instructions.length - s.nextToFetch)
      { s.markAll (setFetch s.cycle) (List.range' s.nextToFetch k) with
        fetchQ := s.fetchQ ++ List.range' s.nextToFetch k
        nextToFetch := s.nextToFetch + k } := by
  induction width generalizing s with
  | zero => simp [fetchLoop, SimState.markAll]
  | succ width ih =>
    rw [fetchLoop]
    by_cases hlt : s.nextToFetch < s.instructions.length
    · have hk : min (width + 1) (s.instructions.length - s.nextToFetch) =
          min width (s.instructions.length - (s.nextToFetch + 1)) + 1 := by omega
      rw [if_pos hlt, ih, hk]
      simp only [SimState.length_modifyInstr, List.range'_succ]
      apply SimState.ext
      case fetchQ => simp
      case nextToFetch => simp only; omega
      all_goals rfl
    · have hzero : s.instructions.length - s.nextToFetch = 0 := by omega
      simp [if_neg hlt, hzero, SimState.markAll]

theorem fetchPass_eq (config : SimulatorConfig) (s : SimState) :
    fetchPass config s =
      { s.markAll (setFetch s.cycle) (fetching config s) with
        fetchQ := s.fetchQ ++ fetching config s
        nextToFetch := s.nextToFetch +
          min config.fetchWidth (s.instructions.length - s.nextToFetch) } :=
  fetchLoop_eq config.fetchWidth s

end AccelSim
