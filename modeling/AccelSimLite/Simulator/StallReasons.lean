import AccelSimLite.Simulator.Resources

/-!
# Stall reasons

The dispatch pass and the issue pass put back the entries they cannot move. The
increments of `stall_counts` made while an entry is at the front of its queue
are charged to it. The dispatch pass charges every entry it holds exactly once.
The issue pass does so too, except where its width test puts an entry back: that
branch charges nothing.

## Main definitions

- `SimState.stallTotal` — all increments of `stall_counts` so far
- `dispatchCharges`, `issueCharges` — the increments charged to one entry
- `HeldCharged` — every held entry of both passes is charged exactly once
- `WidthSuffices` — the issue width outlasts the entries before the last one
-/

namespace AccelSim

def StallReason.all : List StallReason :=
  [.dispatchQueueFull, .noComputeUnit, .noMemoryPort, .readyQueueFull, .waitingDependency]

/-- All increments of `stall_counts` so far. -/
def SimState.stallTotal (s : SimState) : ℕ :=
  (StallReason.all.map s.stats.stallCounts.count).sum

/-- The increments of `stall_counts` made while the dispatch pass has `idx` at the front. -/
def dispatchCharges (config : SimulatorConfig) (s : SimState) (idx : ℕ) : ℕ :=
  ∑ n ∈ Finset.range s.dispatchQ.length,
    if ((dispatchIter config)^[n] s).dispatchQ.head? = some idx then
      ((dispatchIter config)^[n + 1] s).stallTotal - ((dispatchIter config)^[n] s).stallTotal
    else 0

/-- The increments of `stall_counts` made while the issue pass has `idx` at the front. -/
def issueCharges (config : SimulatorConfig) (s : SimState) (idx : ℕ) : ℕ :=
  ∑ n ∈ Finset.range s.readyQ.length,
    if ((issueIter config)^[n] (s, 0)).1.readyQ.head? = some idx then
      ((issueIter config)^[n + 1] (s, 0)).1.stallTotal -
        ((issueIter config)^[n] (s, 0)).1.stallTotal
    else 0

/-- In a cycle whose dispatch pass begins in `t`, each instruction that is still
    in its queue when the dispatch or the issue pass ends is charged exactly one stall. -/
def HeldCharged (config : SimulatorConfig) (t : SimState) : Prop :=
  (∀ idx ∈ t.dispatchQ, idx ∈ (dispatchPass config t).dispatchQ →
    dispatchCharges config t idx = 1) ∧
  ∀ idx ∈ (dispatchPass config t).readyQ,
    idx ∈ (issuePass config (dispatchPass config t)).readyQ →
      issueCharges config (dispatchPass config t) idx = 1

/-- The entries of `ready_q` before the last one leave a part of the issue width. -/
def WidthSuffices (config : SimulatorConfig) (s : SimState) : Prop :=
  s.readyQ = [] ∨
    unitsWanted config s s.issueUse true s.readyQ.dropLast +
      unitsWanted config s s.issueUse false s.readyQ.dropLast < config.issueWidth

/-! ### Charges -/

theorem sum_count_bumpAll (m : Counters StallReason) (ks : List StallReason) :
    (StallReason.all.map (m.bumpAll ks).count).sum =
      (StallReason.all.map m.count).sum + ks.length := by
  have hall : ∀ k, k ∈ StallReason.all := by
    intro k
    cases k <;> decide
  rw [Counters.sum_count_bumpAll m ks (show StallReason.all.Nodup by decide),
    Nat.add_left_cancel_iff, List.countP_eq_length]
  exact fun k _ => decide_eq_true (hall k)

/-- The charge of an entry is what the one visit to it adds. -/
theorem charge_eq {l pre post : List ℕ} {idx : ℕ} (hl : l = pre ++ idx :: post) (hnodup : l.Nodup)
    (front : ℕ → Option ℕ) (total : ℕ → ℕ) (hfront : ∀ n, n < l.length → front n = l[n]?) :
    (∑ n ∈ Finset.range l.length, if front n = some idx then total (n + 1) - total n else 0) =
      total (pre.length + 1) - total pre.length := by
  have hpre : pre.length < l.length := by
    rw [hl, List.length_append, List.length_cons]
    omega
  have hat : l[pre.length]? = some idx := by
    rw [hl]
    simp
  -- without repetitions the entry comes to the front only once
  rw [Finset.sum_eq_single pre.length]
  · rw [hfront _ hpre, if_pos hat]
  · intro n hn hne
    rw [Finset.mem_range] at hn
    rw [hfront n hn, if_neg]
    intro hsame
    exact hne ((List.getElem?_inj hn hnodup).mp (hsame.trans hat.symm))
  · intro hnot
    exact absurd (Finset.mem_range.mpr hpre) hnot

theorem head?_drop_append {l : List ℕ} {n : ℕ} (hn : n < l.length) (rest : List ℕ) :
    (l.drop n ++ rest).head? = l[n]? := by
  rw [List.head?_append, List.head?_drop, List.getElem?_eq_getElem hn]
  rfl

/-- What has been visited before an entry, and after its visit. -/
theorem take_of_eq_append {l pre post : List ℕ} {idx : ℕ} (hl : l = pre ++ idx :: post) :
    l.take pre.length = pre ∧ l.take (pre.length + 1) = pre ++ [idx] := by
  constructor
  · rw [hl, List.take_left]
  · rw [hl, List.take_append]
    simp

theorem iterate_take_dispatch (config : SimulatorConfig) (s : SimState) {n : ℕ}
    (hn : n ≤ s.dispatchQ.length) :
    ((dispatchIter config)^[n] s).dispatchQ =
        s.dispatchQ.drop n ++
          Admission.kept (dispatchVisit config s) s.readyQ.length (s.dispatchQ.take n) ∧
      ((dispatchIter config)^[n] s).stallTotal = s.stallTotal +
        (Admission.refused (dispatchVisit config s) s.readyQ.length
          (s.dispatchQ.take n)).length := by
  have h := dispatchIter_iterate config (s.dispatchQ.take n) (s.dispatchQ.drop n) s
    (List.take_append_drop n _).symm
  rw [List.length_take, Nat.min_eq_left hn] at h
  rw [h]
  refine ⟨rfl, ?_⟩
  exact (sum_count_bumpAll _ _).trans (by rw [List.length_map]; rfl)

theorem iterate_take_issue (config : SimulatorConfig) (s : SimState) {n : ℕ}
    (hn : n ≤ s.readyQ.length) :
    ((issueIter config)^[n] (s, 0)).1.readyQ =
        s.readyQ.drop n ++
          Admission.kept (issueVisit config s) s.issueUse (s.readyQ.take n) ∧
      ((issueIter config)^[n] (s, 0)).1.stallTotal = s.stallTotal +
        ((Admission.refused (issueVisit config s) s.issueUse (s.readyQ.take n)).map
          Prod.snd).reduceOption.length := by
  have h := issueIter_iterate config (s.readyQ.take n) (s.readyQ.drop n) s 0
    (List.take_append_drop n _).symm
  rw [List.length_take, Nat.min_eq_left hn] at h
  rw [h]
  exact ⟨rfl, sum_count_bumpAll _ _⟩

/-- The dispatch pass charges every entry it holds exactly once. -/
theorem dispatchCharges_of_held {config : SimulatorConfig} {s : SimState}
    (hnodup : s.dispatchQ.Nodup) {idx : ℕ} (hidx : idx ∈ dispatchHeld config s) :
    dispatchCharges config s idx = 1 := by
  obtain ⟨pre, post, reason, hl, hv⟩ := Admission.exists_split_of_mem_kept hnodup hidx
  have hlen : pre.length < s.dispatchQ.length := by
    rw [hl, List.length_append, List.length_cons]
    omega
  have hcharge := charge_eq hl hnodup (fun n => ((dispatchIter config)^[n] s).dispatchQ.head?)
    (fun n => ((dispatchIter config)^[n] s).stallTotal) fun n hn => by
      rw [(iterate_take_dispatch config s hn.le).1, head?_drop_append hn]
  refine hcharge.trans ?_
  rw [(iterate_take_dispatch config s hlen).2, (iterate_take_dispatch config s hlen.le).2]
  obtain ⟨htake, htake'⟩ := take_of_eq_append hl
  rw [htake, htake', Admission.refused_append, Admission.refused_cons_error hv, List.length_append]
  simp only [Admission.refused_nil, List.length_singleton]
  omega

/-- The issue pass charges the entry it refuses for a reason once, and not at all
    when its width test refuses it. -/
theorem issueCharges_of_split {config : SimulatorConfig} {s : SimState} (hnodup : s.readyQ.Nodup)
    {pre post : List ℕ} {idx : ℕ} {reason : Option StallReason} (hl : s.readyQ = pre ++ idx :: post)
    (hv : issueVisit config s (Admission.final (issueVisit config s) s.issueUse pre) idx =
      .error reason) :
    issueCharges config s idx = [reason].reduceOption.length := by
  have hlen : pre.length < s.readyQ.length := by
    rw [hl, List.length_append, List.length_cons]
    omega
  have hcharge := charge_eq hl hnodup (fun n => ((issueIter config)^[n] (s, 0)).1.readyQ.head?)
    (fun n => ((issueIter config)^[n] (s, 0)).1.stallTotal) fun n hn => by
      rw [(iterate_take_issue config s hn.le).1, head?_drop_append hn]
  refine hcharge.trans ?_
  rw [(iterate_take_issue config s hlen).2, (iterate_take_issue config s hlen.le).2]
  obtain ⟨htake, htake'⟩ := take_of_eq_append hl
  rw [htake, htake', Admission.refused_append, Admission.refused_cons_error hv, List.map_append,
    List.reduceOption_append, List.length_append]
  simp only [Admission.refused_nil, List.map_cons, List.map_nil]
  omega

/-! ### When the issue pass charges everything it holds -/

/-- The width test is the only one that gives no reason. -/
theorem issueVisit_eq_error_none_iff {config : SimulatorConfig} {s : SimState} {use : IssueUse}
    {idx : ℕ} : issueVisit config s use idx = .error none ↔ config.issueWidth ≤ use.issued := by
  unfold issueVisit
  split_ifs <;> simp_all

/-- The number of issues never falls in the course of a pass. -/
theorem issued_final_le_append (config : SimulatorConfig) (s : SimState) (use : IssueUse)
    (pre post : List ℕ) :
    (Admission.final (issueVisit config s) use pre).issued ≤
      (Admission.final (issueVisit config s) use (pre ++ post)).issued := by
  rw [Admission.final_append]
  exact (IssueUse.le_iff.mp (Admission.le_final (issueVisit_grows config s) _ _)).1

theorem widthSuffices_iff {config : SimulatorConfig} {s : SimState} :
    WidthSuffices config s ↔ s.readyQ = [] ∨
      (Admission.final (issueVisit config s) s.issueUse s.readyQ.dropLast).issued <
        config.issueWidth := by
  rw [issued_final _ _ _ _ (Nat.zero_le _), WidthSuffices]
  refine or_congr_right ?_
  simp only [SimState.issueUse]
  omega

theorem issueCharges_eq_one_iff {config : SimulatorConfig} {s : SimState}
    (hnodup : s.readyQ.Nodup) :
    (∀ idx ∈ issueHeld config s, issueCharges config s idx = 1) ↔ WidthSuffices config s := by
  rw [widthSuffices_iff]
  constructor
  · intro h
    by_contra hnot
    rw [not_or, not_lt] at hnot
    obtain ⟨hne, hused⟩ := hnot
    -- the last entry meets a used-up width, and leaves without a charge
    obtain ⟨pre, last, hl⟩ : ∃ pre last, s.readyQ = pre ++ [last] :=
      ⟨_, _, (List.dropLast_append_getLast hne).symm⟩
    rw [hl, List.dropLast_concat] at hused
    have hv : issueVisit config s _ last = .error none := issueVisit_eq_error_none_iff.mpr hused
    have hheld : last ∈ issueHeld config s := by
      refine (Admission.mem_kept_iff hnodup).mpr ⟨by simp [hl], ?_⟩
      rw [hl, Admission.mem_taken_split (hl ▸ hnodup)]
      rintro ⟨use, hok⟩
      rw [hv] at hok
      cases hok
    have hcharge := h _ hheld
    rw [issueCharges_of_split hnodup hl hv] at hcharge
    exact absurd hcharge (by decide)
  · intro h idx hidx
    obtain ⟨pre, post, reason, hl, hv⟩ := Admission.exists_split_of_mem_kept hnodup hidx
    rw [issueCharges_of_split hnodup hl hv]
    cases reason with
    | some reason => rfl
    | none =>
      exfalso
      have hused := issueVisit_eq_error_none_iff.mp hv
      rw [hl, List.dropLast_append_cons] at h
      have hle := issued_final_le_append config s s.issueUse pre (idx :: post).dropLast
      rcases h with h | h
      · simp at h
      · omega

/-- In every cycle of the run every held instruction is charged exactly one stall. -/
def EveryHeldCharged (workload : List Instruction) (config : SimulatorConfig) : Prop :=
  ∀ k s t, ReachesIn workload config k s → hasWorkLeft s = true → dispatchStart s = .ok t →
    HeldCharged config t

theorem Placed.heldCharged_iff {workload : List Instruction} {t : SimState}
    (h : Placed workload t) (config : SimulatorConfig) :
    HeldCharged config t ↔ WidthSuffices config (dispatchPass config t) := by
  have hdispatched := h.move (dispatchPass_moves config t)
  rw [← issueCharges_eq_one_iff (hdispatched.nodup .ready)]
  have hheld : (dispatchPass config t).dispatchQ = dispatchHeld config t := by
    rw [dispatchPass_eq]
  have hkept : (issuePass config (dispatchPass config t)).readyQ =
      issueHeld config (dispatchPass config t) := by
    rw [issuePass_eq]
  constructor
  · intro hcharged idx hidx
    refine hcharged.2 idx ?_ (hkept ▸ hidx)
    exact (Admission.kept_sublist _ _).subset hidx
  · intro hissue
    refine ⟨fun idx _ hidx => ?_, fun idx _ hidx => hissue idx (hkept ▸ hidx)⟩
    exact dispatchCharges_of_held (h.nodup .dispatch) (hheld ▸ hidx)

/-- **Stall reasons**: a cycle charges everything it holds exactly when the issue
    width is not used up before the last entry of the ready queue, and a run does
    so in all of its cycles exactly when that is so in all of them. -/
theorem held_instructions_charged_iff (workload : List Instruction) (config : SimulatorConfig) :
    (∀ k s t, ReachesIn workload config k s → dispatchStart s = .ok t →
      (HeldCharged config t ↔ WidthSuffices config (dispatchPass config t))) ∧
    (EveryHeldCharged workload config ↔
      ∀ k s t, ReachesIn workload config k s → hasWorkLeft s = true → dispatchStart s = .ok t →
        WidthSuffices config (dispatchPass config t)) := by
  have hcycle : ∀ k s t, ReachesIn workload config k s → dispatchStart s = .ok t →
      (HeldCharged config t ↔ WidthSuffices config (dispatchPass config t)) := by
    intro k s t h ht
    exact ((placed_of_reachesIn h).start ht).heldCharged_iff config
  refine ⟨hcycle, ?_⟩
  constructor
  · intro hrun k s t h hwork ht
    exact (hcycle k s t h ht).mp (hrun k s t h hwork ht)
  · intro hrun k s t h hwork ht
    exact (hcycle k s t h ht).mpr (hrun k s t h hwork ht)

/-- With the default configuration, two compute operations use up the issue width,
    and the load behind them is put back without a reason. -/
theorem held_instruction_not_charged :
    ¬EveryHeldCharged [{ id := 1 }, { id := 2 }, { id := 3, type := .load }] {} := by
  intro h
  have hcharge := (h 3 _ _ (.step (.step (.step .zero rfl rfl) rfl rfl) rfl rfl) rfl rfl).2 2
    (by decide) (by decide)
  exact absurd hcharge (by decide)

end AccelSim
