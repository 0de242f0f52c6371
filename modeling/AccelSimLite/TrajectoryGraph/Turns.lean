import AccelSimLite.Lib.Fallible
import AccelSimLite.TrajectoryGraph.EdgeLengths
import Mathlib.Algebra.Order.Field.Basic
import Mathlib.Data.List.GetD
import Mathlib.Tactic.Ring

/-!
# Turns and the summary

`turn_transitions` counts the corners of a route that turn by some angle at least, and
`summarize` puts the counts and the distances of a graph together.

## Main definitions

- `distanceBetween`, `turnAngleDegrees` — the two functions of points
- `TrajectoryGraph.turnTransitions` — the count
- `TrajectoryGraph.summarize` — the summary
- `TrajectoryGraph.turnsAt` — three points of a route turn

## Main results

- `turnTransitions_eq` — what is counted, and when the route is refused
- `turnTransitions_spec` — the way back has as many turns

## Design notes

Coordinates are elements of a field with a linear order. The square root and the arc
cosine are parameters, of which nothing is assumed.
-/

namespace AccelSim

section

variable {R : Type} [Field R] [LinearOrder R] (sqrt acos : R → R)

def kPi : R := 314159265358979323846 / 10 ^ 20

def distanceBetween (a b : Point R) : R :=
  let dx := b.x - a.x
  let dy := b.y - a.y
  sqrt (dx * dx + dy * dy)

/-- `std::clamp`. -/
def clamp (v lo hi : R) : R := if v < lo then lo else if hi < v then hi else v

def turnAngleDegrees (a b c : Point R) : R :=
  let v1x := b.x - a.x
  let v1y := b.y - a.y
  let v2x := c.x - b.x
  let v2y := c.y - b.y
  let mag1 := sqrt (v1x * v1x + v1y * v1y)
  let mag2 := sqrt (v2x * v2x + v2y * v2y)
  if mag1 = 0 ∨ mag2 = 0 then 0
  else
    let cosine := (v1x * v2x + v1y * v2y) / (mag1 * mag2)
    let cosine := clamp cosine (-1) 1
    acos cosine * 180 / kPi

/-- The angle is that of the way back. -/
theorem turnAngleDegrees_swap (a b c : Point R) :
    turnAngleDegrees sqrt acos c b a = turnAngleDegrees sqrt acos a b c := by
  have hsquare (u v : R) : (u - v) * (u - v) = (v - u) * (v - u) := by ring
  have hproduct (u v w : R) : (v - w) * (u - v) = (v - u) * (w - v) := by ring
  simp only [turnAngleDegrees]
  rw [hsquare b.x c.x, hsquare b.y c.y, hsquare a.x b.x, hsquare a.y b.y, hproduct a.x,
    hproduct a.y, mul_comm (sqrt _)]
  exact if_congr or_comm rfl rfl

end

structure GraphSummary (R : Type) where
  nodeCount : ℕ
  edgeCount : ℕ
  connectedComponents : ℕ
  disconnectedSegments : ℕ
  totalEdgeDistance : R
  averageEdgeDistance : R
  turnTransitions : ℕ

namespace TrajectoryGraph

/-- Every id of a route of three points or more stands in a corner. -/
theorem corners_known_iff {R : Type} (graph : TrajectoryGraph R) {route : List UInt64}
    (h : 3 ≤ route.length) :
    (∀ i ∈ List.range' 1 (route.length - 2), route.getD (i - 1) 0 ∈ graph.points ∧
        route.getD i 0 ∈ graph.points ∧ route.getD (i + 1) 0 ∈ graph.points) ↔
      ∀ id ∈ route, id ∈ graph.points := by
  constructor
  · intro hcorners id hid
    obtain ⟨j, hj, rfl⟩ := List.getElem_of_mem hid
    -- the first id is left of the first corner, the last right of the last one
    have hat (i : ℕ) (hi : 1 ≤ i ∧ i + 1 < route.length) := hcorners i (by
      rw [List.mem_range'_1]
      omega)
    have hget : route.getD j 0 = route[j] := List.getD_eq_getElem _ _ hj
    rw [← hget]
    rcases Nat.eq_zero_or_pos j with rfl | hpos
    · exact (hat 1 (by omega)).1
    · by_cases hlast : j + 1 = route.length
      · have hright := (hat (j - 1) (by omega)).2.2
        rwa [Nat.sub_add_cancel hpos] at hright
      · exact (hat j (by omega)).2.1
  · intro hall i hi
    rw [List.mem_range'_1] at hi
    have hget (j : ℕ) (hj : j < route.length) : route.getD j 0 ∈ graph.points := by
      rw [List.getD_eq_getElem _ _ hj]
      exact hall _ (List.getElem_mem hj)
    exact ⟨hget _ (by omega), hget _ (by omega), hget _ (by omega)⟩

variable {R : Type} [Field R] [LinearOrder R] (sqrt acos : R → R)

def nodeCount (graph : TrajectoryGraph R) : ℕ := graph.points.keys.card

def edgeCount (graph : TrajectoryGraph R) : ℕ := graph.edges.length

/-- The body of the loop over the route. -/
def turnStep (graph : TrajectoryGraph R) (route : List UInt64) (minimumTurnDegrees : R)
    (count i : ℕ) : Except GraphError ℕ :=
  match graph.points.lookup (route.getD (i - 1) 0), graph.points.lookup (route.getD i 0),
      graph.points.lookup (route.getD (i + 1) 0) with
  | some a, some b, some c =>
    .ok (if turnAngleDegrees sqrt acos a b c ≥ minimumTurnDegrees then count + 1 else count)
  | _, _, _ => .error (.invalidArgument "route references unknown point")

def turnTransitions (graph : TrajectoryGraph R) (route : List UInt64) (minimumTurnDegrees : R) :
    Except GraphError ℕ :=
  if route.length < 3 then .ok 0
  else (List.range' 1 (route.length - 2)).foldlM
    (graph.turnStep sqrt acos route minimumTurnDegrees) 0

/-- The summary, for an order in which the loop over `points_` takes the points; `none`
    when a traversal has used up its fuel. -/
def summarize (graph : TrajectoryGraph R) (fuel : ℕ) (order route : List UInt64) :
    Option (Except GraphError (GraphSummary R)) :=
  (graph.connectedComponents fuel order).map fun components => do
    let turnTransitions ← graph.turnTransitions sqrt acos route 20
    .ok
      { nodeCount := graph.nodeCount
        edgeCount := graph.edgeCount
        connectedComponents := components
        disconnectedSegments := if components > 0 then components - 1 else 0
        totalEdgeDistance := graph.totalEdgeDistance
        averageEdgeDistance := graph.averageEdgeDistance
        turnTransitions := turnTransitions }

/-! ### What is counted -/

/-- Three points of the graph that a route visits one after the other turn by the angle. -/
def turnsAt (graph : TrajectoryGraph R) (minimumTurnDegrees : R) (a b c : UInt64) : Bool :=
  match graph.points.lookup a, graph.points.lookup b, graph.points.lookup c with
  | some a, some b, some c => turnAngleDegrees sqrt acos a b c ≥ minimumTurnDegrees
  | _, _, _ => false

/-- The number of the inner positions of a route at which it turns. -/
def turnCount (graph : TrajectoryGraph R) (route : List UInt64) (minimumTurnDegrees : R) : ℕ :=
  (List.range' 1 (route.length - 2)).countP fun i =>
    graph.turnsAt sqrt acos minimumTurnDegrees (route.getD (i - 1) 0) (route.getD i 0)
      (route.getD (i + 1) 0)

variable {sqrt acos} {graph : TrajectoryGraph R} {route : List UInt64} {minimumTurnDegrees : R}

theorem turnStep_of_known {i : ℕ} (h : route.getD (i - 1) 0 ∈ graph.points ∧
    route.getD i 0 ∈ graph.points ∧ route.getD (i + 1) 0 ∈ graph.points) (count : ℕ) :
    graph.turnStep sqrt acos route minimumTurnDegrees count i =
      .ok (if graph.turnsAt sqrt acos minimumTurnDegrees (route.getD (i - 1) 0) (route.getD i 0)
        (route.getD (i + 1) 0) then count + 1 else count) := by
  obtain ⟨a, ha⟩ := Finmap.mem_iff.mp h.1
  obtain ⟨b, hb⟩ := Finmap.mem_iff.mp h.2.1
  obtain ⟨c, hc⟩ := Finmap.mem_iff.mp h.2.2
  rw [turnStep, turnsAt, ha, hb, hc]
  simp only [decide_eq_true_eq]

theorem turnStep_of_unknown {i : ℕ} (h : ¬(route.getD (i - 1) 0 ∈ graph.points ∧
    route.getD i 0 ∈ graph.points ∧ route.getD (i + 1) 0 ∈ graph.points)) (count : ℕ) :
    graph.turnStep sqrt acos route minimumTurnDegrees count i =
      .error (.invalidArgument "route references unknown point") := by
  rw [turnStep]
  split
  · rename_i a b c ha hb hc
    exact absurd ⟨Finmap.mem_of_lookup_eq_some ha, Finmap.mem_of_lookup_eq_some hb,
      Finmap.mem_of_lookup_eq_some hc⟩ h
  · rfl

/-- A route of points is walked to its end, and one with another id is refused. -/
theorem foldlM_turnStep (is : List ℕ) (count : ℕ) :
    is.foldlM (graph.turnStep sqrt acos route minimumTurnDegrees) count =
      if ∀ i ∈ is, route.getD (i - 1) 0 ∈ graph.points ∧ route.getD i 0 ∈ graph.points ∧
          route.getD (i + 1) 0 ∈ graph.points then
        .ok (count + is.countP fun i => graph.turnsAt sqrt acos minimumTurnDegrees
          (route.getD (i - 1) 0) (route.getD i 0) (route.getD (i + 1) 0))
      else .error (.invalidArgument "route references unknown point") := by
  induction is generalizing count with
  | nil => simp [pure, Except.pure]
  | cons i is ih =>
    rw [List.foldlM_cons]
    by_cases hi : route.getD (i - 1) 0 ∈ graph.points ∧ route.getD i 0 ∈ graph.points ∧
        route.getD (i + 1) 0 ∈ graph.points
    · rw [turnStep_of_known hi]
      refine (ih _).trans ?_
      simp only [List.forall_mem_cons, hi, true_and, and_self, List.countP_cons]
      split_ifs <;> first | rfl | (congr 1; omega)
    · rw [turnStep_of_unknown hi, if_neg fun h => hi (h i List.mem_cons_self)]
      rfl

/-- What `turn_transitions` returns. -/
theorem turnTransitions_eq (route : List UInt64) (minimumTurnDegrees : R) :
    graph.turnTransitions sqrt acos route minimumTurnDegrees =
      if 3 ≤ route.length ∧ ∃ id ∈ route, id ∉ graph.points then
        .error (.invalidArgument "route references unknown point")
      else .ok (graph.turnCount sqrt acos route minimumTurnDegrees) := by
  rw [turnTransitions, turnCount]
  by_cases hshort : route.length < 3
  · rw [if_pos hshort, if_neg (by omega)]
    have hnone : route.length - 2 = 0 := by omega
    rw [hnone]
    rfl
  · rw [if_neg hshort, foldlM_turnStep, Nat.zero_add]
    have hcorners := corners_known_iff graph (Nat.le_of_not_lt hshort)
    split_ifs with hall hbad hbad
    · obtain ⟨-, id, hid, hunknown⟩ := hbad
      exact absurd (hcorners.mp hall id hid) hunknown
    · rfl
    · rfl
    · refine absurd (hcorners.mpr fun id hid => ?_) hall
      by_contra hunknown
      exact hbad ⟨by omega, id, hid, hunknown⟩

/-! ### The way back -/

theorem turnsAt_swap (a b c : UInt64) :
    graph.turnsAt sqrt acos minimumTurnDegrees c b a =
      graph.turnsAt sqrt acos minimumTurnDegrees a b c := by
  rw [turnsAt, turnsAt]
  cases graph.points.lookup a <;> cases graph.points.lookup b <;>
    cases graph.points.lookup c <;> first | rfl | simp only [turnAngleDegrees_swap]

/-- The corners of the way back are those of the route, from the last to the first. -/
theorem turnCount_reverse (route : List UInt64) (minimumTurnDegrees : R) :
    graph.turnCount sqrt acos route.reverse minimumTurnDegrees =
      graph.turnCount sqrt acos route minimumTurnDegrees := by
  have hget {j : ℕ} (hj : j < route.length) :
      route.reverse.getD j 0 = route.getD (route.length - 1 - j) 0 := by
    rw [List.getD_eq_getElem _ _ (by rwa [List.length_reverse]), List.getElem_reverse,
      List.getD_eq_getElem _ _ (by omega)]
  have hpositions : (List.range' 1 (route.length - 2)).map (fun i => route.length - 1 - i) =
      (List.range' 1 (route.length - 2)).reverse := by
    rw [List.reverse_range', List.range'_eq_map_range, List.map_map]
    refine List.map_congr_left fun i hi => ?_
    rw [List.mem_range] at hi
    simp only [Function.comp_apply]
    omega
  rw [turnCount, turnCount, List.length_reverse,
    ← List.countP_reverse (l := List.range' 1 (route.length - 2)), ← hpositions, List.countP_map]
  refine List.countP_congr fun i hi => ?_
  rw [List.mem_range'_1] at hi
  have hleft : route.length - 1 - (route.length - 1 - i + 1) = i - 1 := by omega
  have hhere : route.length - 1 - (route.length - 1 - i) = i := by omega
  have hright : route.length - 1 - (route.length - 1 - i - 1) = i + 1 := by omega
  rw [Function.comp_apply, hget (by omega), hget (by omega), hget (by omega), turnsAt_swap, hleft,
    hhere, hright]

/-- A larger angle is reached in fewer corners. -/
theorem turnCount_anti (route : List UInt64) {a b : R} (h : a ≤ b) :
    graph.turnCount sqrt acos route b ≤ graph.turnCount sqrt acos route a := by
  refine List.countP_mono_left fun i _ hi => ?_
  rw [turnsAt] at hi ⊢
  split at hi
  · rw [decide_eq_true_eq] at hi ⊢
    exact h.trans hi
  · cases hi

theorem turnCount_le (route : List UInt64) (minimumTurnDegrees : R) :
    graph.turnCount sqrt acos route minimumTurnDegrees ≤ route.length - 2 :=
  List.countP_le_length.trans (List.length_range').le

/-- **Turns of a route.** `turn_transitions` throws exactly when the route has three ids or
    more and one of them is unknown. It does the same with the way back; and what it counts
    are inner positions of the route, the fewer the larger the angle is. -/
theorem turnTransitions_spec (sqrt acos : R → R) (graph : TrajectoryGraph R)
    (route : List UInt64) (minimumTurnDegrees : R) :
    ((∃ error, graph.turnTransitions sqrt acos route minimumTurnDegrees = .error error) ↔
        3 ≤ route.length ∧ ∃ id ∈ route, id ∉ graph.points) ∧
      graph.turnTransitions sqrt acos route.reverse minimumTurnDegrees =
        graph.turnTransitions sqrt acos route minimumTurnDegrees ∧
      ∀ count, graph.turnTransitions sqrt acos route minimumTurnDegrees = .ok count →
        count ≤ route.length - 2 ∧
          ∀ angle, minimumTurnDegrees ≤ angle →
            ∃ fewer ≤ count, graph.turnTransitions sqrt acos route angle = .ok fewer := by
  refine ⟨?_, ?_, ?_⟩
  · rw [turnTransitions_eq]
    split_ifs with hbad <;> simp [hbad]
  · rw [turnTransitions_eq, turnTransitions_eq, turnCount_reverse]
    simp only [List.length_reverse, List.mem_reverse]
  · intro count hcount
    rw [turnTransitions_eq] at hcount
    split_ifs at hcount with hbad
    rw [Except.ok.injEq] at hcount
    subst hcount
    refine ⟨turnCount_le route minimumTurnDegrees, fun angle hangle => ?_⟩
    exact ⟨_, turnCount_anti route hangle, by rw [turnTransitions_eq, if_neg hbad]⟩

end TrajectoryGraph

end AccelSim
