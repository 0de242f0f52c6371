import AccelSimLite.TrajectoryGraph.TrajectoryFile
import AccelSimLite.TrajectoryGraph.Turns

/-!
# The summary of a file

`main` of the trajectory program parses a file and summarises the graph along the route
that the file describes. Once a file is accepted, nothing throws any more, and the summary
is a function of the rows alone.

## Main definitions

- `TrajectoryGraph.MeasuredBetween` — a length is that between the last points of two ids

## Main results

- `Describes.summarize_eq` — the summary of the trajectory that some rows describe
- `summarize_parsed` — the summary of an accepted file
-/

namespace AccelSim

open StorageDatapath (dataLines)

namespace TrajectoryGraph

variable {R : Type} {distance : Point R → Point R → R} {rows : List (TrajectoryRow R)}
  {parsed : ParsedTrajectory R}

/-- The length is the distance between the points that the rows have written last for the
    ends of an edge. -/
def MeasuredBetween (distance : Point R → Point R → R) (rows : List (TrajectoryRow R))
    (ends : UInt64 × UInt64) (length : R) : Prop :=
  ∃ a b, LastWrite.last? (rows.map fun row => (row.point.id, row.point)) ends.1 = some a ∧
    LastWrite.last? (rows.map fun row => (row.point.id, row.point)) ends.2 = some b ∧
    length = distance a b

theorem Describes.keys_eq (h : Describes distance rows parsed) :
    parsed.graph.points.keys = (rows.map fun row => row.point.id).toFinset := by
  ext id
  rw [Finmap.mem_keys, mem_points_iff h.points]
  simp

theorem Describes.route_known (h : Describes distance rows parsed) :
    ∀ id ∈ parsed.route, id ∈ parsed.graph.points := by
  intro id hid
  rw [h.route, List.mem_map] at hid
  exact (mem_points_iff h.points id).mpr hid

theorem Describes.forall₂_measured (h : Describes distance rows parsed) :
    List.Forall₂ (MeasuredBetween distance rows) (rows.filterMap TrajectoryRow.edge)
      (parsed.graph.edges.map Edge.distance) := by
  rw [← h.edges, List.forall₂_map_left_iff, List.forall₂_map_right_iff]
  refine List.forall₂_same.mpr fun edge hedge => ?_
  obtain ⟨hfrom, hto⟩ := h.consistent.endpoints edge hedge
  obtain ⟨a, ha⟩ := Finmap.mem_iff.mp hfrom
  obtain ⟨b, hb⟩ := Finmap.mem_iff.mp hto
  have hlength := h.lengths edge hedge
  rw [edgeDistance_eq ha hb, Except.ok.injEq] at hlength
  exact ⟨a, b, (h.points _).symm.trans ha, (h.points _).symm.trans hb, hlength.symm⟩

section

variable [Field R] [LinearOrder R] {sqrt : R → R}

/-- What the summary of a file says about its rows. -/
structure Summarizes (sqrt acos : R → R) (rows : List (TrajectoryRow R))
    (graph : TrajectoryGraph R) (summary : GraphSummary R) : Prop where
  nodeCount : summary.nodeCount = (rows.map fun row => row.point.id).toFinset.card
  edgeCount : summary.edgeCount = (rows.filterMap TrajectoryRow.edge).length
  connectedComponents : summary.connectedComponents =
    Nat.card (Quotient (Relation.EqvGen.setoid graph.Joined))
  disconnectedSegments : summary.disconnectedSegments = summary.connectedComponents - 1
  distances : ∃ lengths : List R,
    List.Forall₂ (MeasuredBetween (distanceBetween sqrt) rows)
      (rows.filterMap TrajectoryRow.edge) lengths ∧
    summary.totalEdgeDistance = lengths.foldl (· + ·) (0 : R) ∧
    summary.averageEdgeDistance =
      if lengths.isEmpty then 0 else lengths.foldl (· + ·) (0 : R) / lengths.length
  turnTransitions : summary.turnTransitions =
    graph.turnCount sqrt acos (rows.map fun row => row.point.id) 20

/-- The summary of the trajectory that some rows describe. -/
theorem Describes.summarize_eq (acos : R → R) (h : Describes (distanceBetween sqrt) rows parsed)
    {order : List UInt64} (horder : parsed.graph.IterationOrder order) {fuel : ℕ}
    (hfuel : parsed.graph.points.keys.card ≤ fuel) :
    ∃ summary, parsed.graph.summarize sqrt acos fuel order parsed.route = some (.ok summary) ∧
      Summarizes sqrt acos rows parsed.graph summary := by
  have hturns : parsed.graph.turnTransitions sqrt acos parsed.route 20 =
      .ok (parsed.graph.turnCount sqrt acos parsed.route 20) := by
    rw [turnTransitions_eq, if_neg]
    rintro ⟨-, id, hid, hunknown⟩
    exact hunknown (h.route_known id hid)
  rw [summarize, h.consistent.connectedComponents_eq horder hfuel, Option.map_some, hturns]
  refine ⟨_, rfl, ?_⟩
  constructor
  case nodeCount => exact congrArg Finset.card h.keys_eq
  case edgeCount =>
    change parsed.graph.edges.length = _
    simpa using congrArg List.length h.edges
  case connectedComponents => rfl
  case disconnectedSegments =>
    dsimp only
    split_ifs <;> omega
  case distances =>
    refine ⟨_, h.forall₂_measured, ?_, ?_⟩
    · exact (List.foldl_map ..).symm
    · dsimp only
      rw [averageEdgeDistance, totalEdgeDistance, List.foldl_map, List.isEmpty_map,
        List.length_map]
  case turnTransitions => rw [← h.route]

/-- **The summary of an accepted file.** Nothing throws after a file has been accepted, in
    whatever order the points are taken: the summary counts the ids, the edges, the classes of
    connected points and the turns, and adds up the distances between the points that the rows
    have written last. -/
theorem summarize_parsed (sqrt acos : R → R) {stod : List Char → Except LoadError R}
    {path : String} {content : List Char} {parsed : ParsedTrajectory R}
    (hparse : parseTrajectoryCsv (distanceBetween sqrt) stod path (some content) = .ok parsed)
    {order : List UInt64} (horder : parsed.graph.IterationOrder order) {fuel : ℕ}
    (hfuel : parsed.graph.points.keys.card ≤ fuel) :
    ∃ rows summary, List.Forall₂ (fun line row => readRow stod line = .ok row)
        (dataLines content) rows ∧
      parsed.route = rows.map (fun row => row.point.id) ∧
      parsed.graph.summarize sqrt acos fuel order parsed.route = some (.ok summary) ∧
      Summarizes sqrt acos rows parsed.graph summary := by
  obtain ⟨rows, hreads, -, hdescribes⟩ := parseTrajectoryCsv_eq_ok.mp hparse
  obtain ⟨summary, hsummary, hspec⟩ := hdescribes.summarize_eq acos horder hfuel
  exact ⟨rows, summary, hreads, hdescribes.route, hsummary, hspec⟩

end

/-- A route with one corner of 90 degrees. -/
def corner : List Char := "id,x,y,next_id\n1,0,0,2\n2,3,4,3\n3,7,1,-1\n".toList

def cornerRows : List (TrajectoryRow ℚ) :=
  [⟨⟨1, 0, 0⟩, some 2⟩, ⟨⟨2, 3, 4⟩, some 3⟩, ⟨⟨3, 7, 1⟩, none⟩]

def readWhole (text : List Char) : Except LoadError ℚ := (stoull text).map Nat.cast

def wholeRoot (x : ℚ) : ℚ := Nat.sqrt x.num.toNat

def rightAngle (x : ℚ) : ℚ := if x = 0 then kPi / 2 else 0

/-- The points are taken in another order than that of the file. -/
theorem summarize_parsed_corner :
    ∃ parsed rows summary,
      parseTrajectoryCsv (distanceBetween wholeRoot) readWhole "route.csv" (some corner) =
          .ok parsed ∧
        List.Forall₂ (fun line row => readRow readWhole line = .ok row) (dataLines corner) rows ∧
        parsed.graph.summarize wholeRoot rightAngle 3 [3, 1, 2] parsed.route =
          some (.ok summary) ∧
        Summarizes wholeRoot rightAngle rows parsed.graph summary := by
  have hreads : List.Forall₂ (fun line row => readRow readWhole line = .ok row)
      (dataLines corner) cornerRows := by
    refine Fallible.mapM_eq_ok.mp ?_
    decide +kernel
  have hnexts : NextsKnown cornerRows := by simp [NextsKnown, cornerRows]
  obtain ⟨parsed, hdescribes⟩ := exists_describes (distanceBetween wholeRoot) hnexts
  have hparse : parseTrajectoryCsv (distanceBetween wholeRoot) readWhole "route.csv"
      (some corner) = .ok parsed :=
    parseTrajectoryCsv_eq_ok.mpr ⟨cornerRows, hreads, hnexts, hdescribes⟩
  have horder : parsed.graph.IterationOrder [3, 1, 2] := by
    refine ⟨by decide, ?_⟩
    rw [hdescribes.keys_eq]
    decide
  have hfuel : parsed.graph.points.keys.card ≤ 3 := by
    rw [hdescribes.keys_eq]
    decide
  obtain ⟨rows, summary, hrows, -, hsummary⟩ :=
    summarize_parsed wholeRoot rightAngle hparse horder hfuel
  exact ⟨parsed, rows, summary, hparse, hrows, hsummary⟩

end TrajectoryGraph

end AccelSim
