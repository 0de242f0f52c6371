import AccelSimLite.Lib.Fallible
import AccelSimLite.TrajectoryGraph.Components

/-!
# The lengths of the edges

An edge keeps the distance that its endpoints had when it was added. A point that is
added again is moved, and its edges are not measured again, so that the stored lengths
are those of the points just as long as no call moves a point along an edge.

## Main definitions

- `TrajectoryGraph.MatchesPoints` — the stored lengths are those between the points
- `TrajectoryGraph.KeepsLengths` — the call leaves the endpoints of the edges as far
  apart as they were

## Main results

- `lengthsMatch_after_iff` — one call
- `matchesPoints_afterAll_iff` — any calls
-/

namespace AccelSim

namespace TrajectoryGraph

variable {R : Type} (distanceBetween : Point R → Point R → R)

/-- The stored distance of every edge is that between its endpoints. -/
def LengthsMatch (graph : TrajectoryGraph R) : Prop :=
  ∀ edge ∈ graph.edges,
    graph.edgeDistance distanceBetween edge.fromId edge.toId = .ok edge.distance

/-- The distances between the endpoints of the edges, measured now. -/
def currentLengths (graph : TrajectoryGraph R) : Except GraphError (List R) :=
  graph.edges.mapM fun edge => graph.edgeDistance distanceBetween edge.fromId edge.toId

/-- The edges and what is computed from them describe the points. -/
structure MatchesPoints [Zero R] [Add R] [Div R] [NatCast R] (graph : TrajectoryGraph R) :
    Prop where
  lengths : graph.LengthsMatch distanceBetween
  total : ∃ lengths, graph.currentLengths distanceBetween = .ok lengths ∧
    graph.totalEdgeDistance = lengths.foldl (· + ·) (0 : R)
  average : ∃ lengths, graph.currentLengths distanceBetween = .ok lengths ∧
    graph.averageEdgeDistance =
      if lengths.isEmpty then 0 else lengths.foldl (· + ·) (0 : R) / lengths.length

/-- A point that is added is as far from the other end of each of its edges as the
    point that it replaces. -/
def KeepsLengths (graph : TrajectoryGraph R) : GraphCall R → Prop
  | .addPoint point => ∀ edge ∈ graph.edges, ∀ a b,
      graph.points.lookup edge.fromId = some a → graph.points.lookup edge.toId = some b →
        distanceBetween (if edge.fromId = point.id then point else a)
          (if edge.toId = point.id then point else b) = distanceBetween a b
  | .addEdge _ _ => True

/-! ### One call -/

variable {distanceBetween} {graph : TrajectoryGraph R}

theorem edgeDistance_eq {fromId toId : UInt64} {a b : Point R}
    (ha : graph.points.lookup fromId = some a) (hb : graph.points.lookup toId = some b) :
    graph.edgeDistance distanceBetween fromId toId = .ok (distanceBetween a b) := by
  rw [edgeDistance, ha, hb]

/-- After the insertion of a point, an endpoint is the new point or the old one. -/
theorem lookup_addPoint {point a : Point R} {id : UInt64} (ha : graph.points.lookup id = some a) :
    (graph.addPoint point).points.lookup id = some (if id = point.id then point else a) := by
  change (graph.points.insert point.id point).lookup id = _
  rw [lookup_insert, ha]
  split <;> rfl

theorem lengthsMatch_addPoint_iff (hconsistent : graph.Consistent)
    (h : graph.LengthsMatch distanceBetween) (point : Point R) :
    (graph.addPoint point).LengthsMatch distanceBetween ↔
      graph.KeepsLengths distanceBetween (.addPoint point) := by
  refine forall₂_congr fun edge hedge => ?_
  obtain ⟨hfrom, hto⟩ := hconsistent.endpoints edge hedge
  obtain ⟨a, ha⟩ := Finmap.mem_iff.mp hfrom
  obtain ⟨b, hb⟩ := Finmap.mem_iff.mp hto
  have hlength := h edge hedge
  rw [edgeDistance_eq ha hb, Except.ok.injEq] at hlength
  rw [edgeDistance_eq (lookup_addPoint ha) (lookup_addPoint hb), Except.ok.injEq, ← hlength]
  constructor
  · intro hkeeps a' b' ha' hb'
    cases ha.symm.trans ha'
    cases hb.symm.trans hb'
    exact hkeeps
  · intro hkeeps
    exact hkeeps a b ha hb

theorem LengthsMatch.withEdge (h : graph.LengthsMatch distanceBetween) {fromId toId : UInt64}
    {a b : Point R} (ha : graph.points.lookup fromId = some a)
    (hb : graph.points.lookup toId = some b) :
    (graph.withEdge ⟨fromId, toId, distanceBetween a b⟩).LengthsMatch distanceBetween := by
  intro edge hedge
  rcases List.mem_append.mp hedge with hold | hnew
  · exact h edge hold
  · rw [List.mem_singleton] at hnew
    subst hnew
    change (graph.withEdge ⟨fromId, toId, distanceBetween a b⟩).edgeDistance distanceBetween
      fromId toId = _
    exact edgeDistance_eq ha hb

/-- A call keeps the lengths right exactly when it keeps the distances along the edges. -/
theorem lengthsMatch_after_iff (hconsistent : graph.Consistent)
    (h : graph.LengthsMatch distanceBetween) (call : GraphCall R) :
    (call.after distanceBetween graph).LengthsMatch distanceBetween ↔
      graph.KeepsLengths distanceBetween call := by
  cases call with
  | addPoint point => exact lengthsMatch_addPoint_iff hconsistent h point
  | addEdge fromId toId =>
    refine iff_of_true ?_ trivial
    rw [GraphCall.after, GraphCall.action]
    rcases addEdge_run distanceBetween graph fromId toId with
      ⟨-, hrun⟩ | ⟨-, a, b, ha, hb, hrun⟩
    · rw [hrun]
      exact h
    · rw [hrun]
      exact h.withEdge ha hb

/-! ### Any calls -/

theorem LengthsMatch.currentLengths_eq (h : graph.LengthsMatch distanceBetween) :
    graph.currentLengths distanceBetween = .ok (graph.edges.map Edge.distance) := by
  refine Fallible.mapM_eq_ok.mpr ?_
  rw [List.forall₂_map_right_iff]
  exact List.forall₂_same.mpr h

/-- The sums over the edges are those of their lengths. -/
theorem LengthsMatch.matchesPoints [Zero R] [Add R] [Div R] [NatCast R]
    (h : graph.LengthsMatch distanceBetween) : graph.MatchesPoints distanceBetween := by
  refine ⟨h, ⟨_, h.currentLengths_eq, ?_⟩, ⟨_, h.currentLengths_eq, ?_⟩⟩
  · rw [totalEdgeDistance, List.foldl_map]
  · rw [averageEdgeDistance, totalEdgeDistance, List.foldl_map, List.isEmpty_map,
      List.length_map]

theorem afterAll_concat (calls : List (GraphCall R)) (call : GraphCall R) :
    GraphCall.afterAll distanceBetween (calls ++ [call]) =
      call.after distanceBetween (GraphCall.afterAll distanceBetween calls) := by
  simp only [GraphCall.afterAll, List.foldl_append, List.foldl_cons, List.foldl_nil]

/-- In a run, the edges describe the points all the time exactly when no call moves a
    point along an edge. -/
theorem matchesPoints_afterAll_iff [Zero R] [Add R] [Div R] [NatCast R]
    (distanceBetween : Point R → Point R → R) (calls : List (GraphCall R)) :
    (∀ past future, calls = past ++ future →
        (GraphCall.afterAll distanceBetween past).MatchesPoints distanceBetween) ↔
      ∀ past call future, calls = past ++ call :: future →
        (GraphCall.afterAll distanceBetween past).KeepsLengths distanceBetween call := by
  constructor
  · intro hmatches past call future hcalls
    have hconsistent := consistent_afterAll distanceBetween past
    have hbefore := (hmatches past (call :: future) hcalls).lengths
    have hafter := (hmatches (past ++ [call]) future (by simpa using hcalls)).lengths
    rw [afterAll_concat] at hafter
    exact (lengthsMatch_after_iff hconsistent hbefore call).mp hafter
  · intro hkeeps past
    refine fun future hcalls => LengthsMatch.matchesPoints ?_
    -- over the calls so far, so that the last step starts from a state of the run
    induction past using List.reverseRecOn generalizing future with
    | nil =>
      intro edge hedge
      exact absurd hedge List.not_mem_nil
    | append_singleton past call ih =>
      have hcalls' : calls = past ++ call :: future := by simpa using hcalls
      rw [afterAll_concat]
      exact (lengthsMatch_after_iff (consistent_afterAll distanceBetween past)
        (ih (call :: future) hcalls') call).mpr (hkeeps past call future hcalls')

/-- A point that is moved after an edge was added to it. -/
def movedPoint : List (GraphCall ℤ) :=
  [.addPoint ⟨1, 0, 0⟩, .addPoint ⟨2, 3, 0⟩, .addEdge 1 2, .addPoint ⟨2, 5, 0⟩]

def cityDistance (a b : Point ℤ) : ℤ := (a.x - b.x).natAbs + (a.y - b.y).natAbs

/-- The edge is still 3 long. -/
theorem matchesPoints_movedPoint :
    (GraphCall.afterAll cityDistance movedPoint).edges = [⟨1, 2, 3⟩] ∧
      (GraphCall.afterAll cityDistance movedPoint).edgeDistance cityDistance 1 2 = .ok 5 ∧
      ¬(GraphCall.afterAll cityDistance movedPoint).MatchesPoints cityDistance := by
  have hedges : (GraphCall.afterAll cityDistance movedPoint).edges = [⟨1, 2, 3⟩] := by
    decide +kernel
  have hdistance : (GraphCall.afterAll cityDistance movedPoint).edgeDistance cityDistance 1 2 =
      .ok 5 := by
    decide +kernel
  refine ⟨hedges, hdistance, ?_⟩
  intro hmatches
  have hlength := hmatches.lengths ⟨1, 2, 3⟩ (by rw [hedges]; exact List.mem_cons_self)
  rw [hdistance, Except.ok.injEq] at hlength
  exact absurd hlength (by decide)

end TrajectoryGraph

end AccelSim
