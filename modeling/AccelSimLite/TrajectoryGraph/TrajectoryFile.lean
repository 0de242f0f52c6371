import AccelSimLite.Lib.LastWrite
import AccelSimLite.StorageDatapath.WorkloadFile
import AccelSimLite.TrajectoryGraph.EdgeLengths

/-!
# Trajectory files

A model of `parse_trajectory_csv`. The rows add their points in order, and the edges are
added when all points are known, so that an edge is measured between the points that the
graph ends with, also when a row has moved a point.

## Main definitions

- `TrajectoryGraph.parseTrajectoryCsv` — the function
- `TrajectoryGraph.NextsKnown` — every row leads to a row
- `TrajectoryGraph.Describes` — what a parsed trajectory has of its rows

## Main results

- `Describes.unique` — the rows determine the trajectory
- `parseTrajectoryCsv_spec` — which files are accepted, and what is returned

## Design notes

`std::stod` is a parameter.
-/

namespace AccelSim

open StorageDatapath (field dataLines)

inductive TrajectoryError
  | unableToOpen (path : String)
  /-- An exception of `std::stoull` or `std::stod`. -/
  | number (error : LoadError)
  | graph (error : GraphError)
  deriving DecidableEq

/-- The text of the exception, where the program chooses it. -/
def TrajectoryError.what : TrajectoryError → Option String
  | .unableToOpen path => some ("unable to open trajectory file: " ++ path)
  | .number _ => none
  | .graph (.invalidArgument what) => some what
  | .graph .outOfRange => none

/-- The columns of a row. -/
structure TrajectoryRow (R : Type) where
  point : Point R
  next : Option UInt64
  deriving DecidableEq

/-- The edge that a row asks for. -/
def TrajectoryRow.edge {R : Type} (row : TrajectoryRow R) : Option (UInt64 × UInt64) :=
  row.next.map fun next => (row.point.id, next)

structure ParsedTrajectory (R : Type) where
  graph : TrajectoryGraph R
  route : List UInt64

namespace TrajectoryGraph

variable {R : Type}

/-! ### The loop -/

def readId (text : List Char) : Except LoadError UInt64 :=
  (stoull text).map UInt64.ofNat

def readRow (stod : List Char → Except LoadError R) (line : List Char) :
    Except LoadError (TrajectoryRow R) := do
  let id ← readId (field line 0)
  let x ← stod (field line 1)
  let y ← stod (field line 2)
  let nextText := field line 3
  if nextText ≠ [] ∧ nextText ≠ "-1".toList then do
    let next ← readId nextText
    .ok { point := ⟨id, x, y⟩, next := some next }
  else .ok { point := ⟨id, x, y⟩, next := none }

/-- The local variables of the loop over the lines. -/
structure ParseState (R : Type) where
  graph : TrajectoryGraph R := {}
  route : List UInt64 := []
  pendingEdges : List (UInt64 × UInt64) := []
  firstLine : Bool := true

def ParseState.push (s : ParseState R) (row : TrajectoryRow R) : ParseState R where
  graph := s.graph.addPoint row.point
  route := s.route ++ [row.point.id]
  pendingEdges := s.pendingEdges ++ row.edge.toList
  firstLine := false

def parseLine (stod : List Char → Except LoadError R) (s : ParseState R) (line : List Char) :
    Except LoadError (ParseState R) :=
  if line = [] then .ok s
  else if s.firstLine ∧ isHeader line then .ok { s with firstLine := false }
  else do
    let row ← readRow stod line
    .ok (s.push row)

/-! ### The function -/

variable (distanceBetween : Point R → Point R → R)

/-- The loop over `pending_edges`. -/
def addEdges (pendingEdges : List (UInt64 × UInt64)) :
    EStateM GraphError (TrajectoryGraph R) Unit :=
  match pendingEdges with
  | [] => pure ()
  | (fromId, toId) :: pendingEdges => do
    addEdge distanceBetween fromId toId
    addEdges pendingEdges

def ParseState.finish (s : ParseState R) : Except TrajectoryError (ParsedTrajectory R) :=
  match (addEdges distanceBetween s.pendingEdges).run s.graph with
  | .ok _ graph => .ok { graph := graph, route := s.route }
  | .error error _ => .error (.graph error)

def parseTrajectoryCsv (stod : List Char → Except LoadError R) (path : String)
    (file : Option (List Char)) : Except TrajectoryError (ParsedTrajectory R) :=
  match file with
  | none => .error (.unableToOpen path)
  | some content =>
    match (Getline.items '\n' content).foldlM (parseLine stod) {} with
    | .error error => .error (.number error)
    | .ok s => s.finish distanceBetween

/-! ### What a trajectory has of its rows -/

/-- Every row that leads somewhere leads to the point of a row. -/
def NextsKnown (rows : List (TrajectoryRow R)) : Prop :=
  ∀ row ∈ rows, ∀ next, row.next = some next → ∃ other ∈ rows, other.point.id = next

/-- The route and the edges are those of the rows, the points those that the rows have
    written last, and the edges are as long as these points are apart. -/
structure Describes (rows : List (TrajectoryRow R)) (parsed : ParsedTrajectory R) : Prop where
  route : parsed.route = rows.map fun row => row.point.id
  points : ∀ id, parsed.graph.points.lookup id =
    LastWrite.last? (rows.map fun row => (row.point.id, row.point)) id
  edges : (parsed.graph.edges.map fun edge => (edge.fromId, edge.toId)) =
    rows.filterMap TrajectoryRow.edge
  lengths : parsed.graph.LengthsMatch distanceBetween
  consistent : parsed.graph.Consistent

variable {distanceBetween} {rows : List (TrajectoryRow R)} {parsed parsed' : ParsedTrajectory R}

theorem edges_eq_of_lengthsMatch {graph graph' : TrajectoryGraph R}
    (hpoints : graph.points = graph'.points) (h : graph.LengthsMatch distanceBetween)
    (h' : graph'.LengthsMatch distanceBetween)
    (hends : (graph.edges.map fun edge => (edge.fromId, edge.toId)) =
      graph'.edges.map fun edge => (edge.fromId, edge.toId)) : graph.edges = graph'.edges := by
  have hlength : graph.edges.length = graph'.edges.length := by
    simpa using congrArg List.length hends
  refine List.ext_getElem hlength fun i hi hi' => ?_
  have hend := List.getElem_of_eq hends (by simpa using hi)
  simp only [List.getElem_map, Prod.mk.injEq] at hend
  have hdistance := h _ (List.getElem_mem hi)
  have hdistance' := h' _ (List.getElem_mem hi')
  rw [← hend.1, ← hend.2] at hdistance'
  have hsame : graph'.edgeDistance distanceBetween = graph.edgeDistance distanceBetween := by
    funext a b
    rw [edgeDistance, edgeDistance, hpoints]
  rw [hsame, hdistance, Except.ok.injEq] at hdistance'
  calc graph.edges[i] = ⟨graph.edges[i].fromId, graph.edges[i].toId, graph.edges[i].distance⟩ := rfl
    _ = graph'.edges[i] := by rw [hend.1, hend.2, hdistance']

/-- The rows determine the trajectory. -/
theorem Describes.unique (h : Describes distanceBetween rows parsed)
    (h' : Describes distanceBetween rows parsed') : parsed = parsed' := by
  have hpoints : parsed.graph.points = parsed'.graph.points :=
    Finmap.ext_lookup fun id => by rw [h.points, h'.points]
  have hedges : parsed.graph.edges = parsed'.graph.edges :=
    edges_eq_of_lengthsMatch hpoints h.lengths h'.lengths (h.edges.trans h'.edges.symm)
  have hadjacency : parsed.graph.adjacency = parsed'.graph.adjacency :=
    Finmap.ext_lookup fun id => by
      rw [h.consistent.adjacency, h'.consistent.adjacency, hpoints, hedges]
  obtain ⟨⟨points, adjacency, edges⟩, route⟩ := parsed
  obtain ⟨⟨points', adjacency', edges'⟩, route'⟩ := parsed'
  have hroute := h.route.trans h'.route.symm
  simp only at hpoints hedges hadjacency hroute
  rw [hpoints, hedges, hadjacency, hroute]

/-! ### The edges -/

theorem addEdges_cons (fromId toId : UInt64) (pendingEdges : List (UInt64 × UInt64))
    (graph : TrajectoryGraph R) :
    (addEdges distanceBetween ((fromId, toId) :: pendingEdges)).run graph =
      match (addEdge distanceBetween fromId toId).run graph with
      | .ok _ graph => (addEdges distanceBetween pendingEdges).run graph
      | .error error graph => .error error graph := by
  rw [addEdges, EStateM.run_bind]
  cases (addEdge distanceBetween fromId toId).run graph <;> rfl

/-- Edges between points are all added. -/
theorem addEdges_of_known {pendingEdges : List (UInt64 × UInt64)} {graph : TrajectoryGraph R}
    (hknown : ∀ e ∈ pendingEdges, e.1 ∈ graph.points ∧ e.2 ∈ graph.points)
    (hconsistent : graph.Consistent) (hlengths : graph.LengthsMatch distanceBetween) :
    ∃ graph', (addEdges distanceBetween pendingEdges).run graph = .ok () graph' ∧
      graph'.points = graph.points ∧
      (graph'.edges.map fun edge => (edge.fromId, edge.toId)) =
        (graph.edges.map fun edge => (edge.fromId, edge.toId)) ++ pendingEdges ∧
      graph'.Consistent ∧ graph'.LengthsMatch distanceBetween := by
  induction pendingEdges generalizing graph with
  | nil => exact ⟨graph, rfl, rfl, by simp, hconsistent, hlengths⟩
  | cons e pendingEdges ih =>
    obtain ⟨fromId, toId⟩ := e
    rw [List.forall_mem_cons] at hknown
    rw [addEdges_cons]
    rcases addEdge_run distanceBetween graph fromId toId with
      ⟨hunknown, -⟩ | ⟨-, a, b, ha, hb, hrun⟩
    · exact absurd hknown.1 (not_and_or.mpr hunknown)
    · have hnext : (graph.withEdge ⟨fromId, toId, distanceBetween a b⟩).Consistent :=
        hconsistent.withEdge hknown.1.1 hknown.1.2
      obtain ⟨graph', hrest, hpoints, hedges, hinv⟩ := ih (by exact hknown.2) hnext
        (hlengths.withEdge ha hb)
      refine ⟨graph', ?_, hpoints, ?_, hinv⟩
      · rw [hrun]
        exact hrest
      · rw [hedges, withEdge, List.map_append, List.append_assoc]
        rfl

variable (distanceBetween) in
/-- The first edge to an unknown point throws. -/
theorem addEdges_of_unknown {pendingEdges : List (UInt64 × UInt64)} {graph : TrajectoryGraph R}
    (hunknown : ∃ e ∈ pendingEdges, ¬(e.1 ∈ graph.points ∧ e.2 ∈ graph.points)) :
    ∃ left, (addEdges distanceBetween pendingEdges).run graph =
      .error (.invalidArgument "edge references unknown point") left := by
  induction pendingEdges generalizing graph with
  | nil =>
    obtain ⟨e, he, -⟩ := hunknown
    cases he
  | cons e pendingEdges ih =>
    obtain ⟨fromId, toId⟩ := e
    rw [addEdges_cons]
    rcases addEdge_run distanceBetween graph fromId toId with
      ⟨-, hrun⟩ | ⟨hknown, a, b, -, -, hrun⟩
    · exact ⟨graph, by rw [hrun]⟩
    · rw [hrun]
      refine ih ?_
      obtain ⟨e, he, hbad⟩ := hunknown
      rcases List.mem_cons.mp he with rfl | hrest
      · exact absurd hknown hbad
      · exact ⟨e, hrest, hbad⟩

/-! ### The rows -/

theorem foldl_push (rows : List (TrajectoryRow R)) (s : ParseState R) :
    let s' := rows.foldl ParseState.push s
    s'.graph = rows.foldl (fun graph row => graph.addPoint row.point) s.graph ∧
      s'.route = s.route ++ rows.map (fun row => row.point.id) ∧
      s'.pendingEdges = s.pendingEdges ++ rows.filterMap TrajectoryRow.edge := by
  induction rows generalizing s with
  | nil => exact ⟨rfl, (List.append_nil _).symm, (List.append_nil _).symm⟩
  | cons row rows ih =>
    obtain ⟨hgraph, hroute, hpending⟩ := ih (s.push row)
    refine ⟨hgraph, hroute.trans ?_, hpending.trans ?_⟩
    · rw [ParseState.push, List.append_assoc]
      rfl
    · rw [ParseState.push, List.append_assoc, List.filterMap_cons]
      cases row.edge <;> rfl

/-- The graph of the points only. -/
theorem foldl_addPoint (rows : List (TrajectoryRow R)) :
    let graph := rows.foldl (fun graph row => graph.addPoint row.point) ({} : TrajectoryGraph R)
    (∀ id, graph.points.lookup id =
        LastWrite.last? (rows.map fun row => (row.point.id, row.point)) id) ∧
      graph.edges = [] ∧ graph.Consistent := by
  induction rows using List.reverseRecOn with
  | nil => exact ⟨fun id => Finmap.lookup_empty id, rfl, consistent_empty⟩
  | append_singleton rows row ih =>
    obtain ⟨hpoints, hedges, hconsistent⟩ := ih
    simp only [List.foldl_append, List.foldl_cons, List.foldl_nil]
    refine ⟨fun id => ?_, hedges, hconsistent.addPoint row.point⟩
    rw [List.map_append, List.map_singleton, LastWrite.last?_concat, ← hpoints]
    exact lookup_insert _ _ _ _

theorem mem_points_iff {graph : TrajectoryGraph R}
    (h : ∀ id, graph.points.lookup id =
      LastWrite.last? (rows.map fun row => (row.point.id, row.point)) id) (id : UInt64) :
    id ∈ graph.points ↔ ∃ row ∈ rows, row.point.id = id := by
  rw [← Finmap.lookup_isSome, h, ← Option.ne_none_iff_isSome, Ne, LastWrite.last?_eq_none_iff,
    not_not]
  simp

variable (distanceBetween) in
/-- What becomes of rows that could be read. -/
theorem finish_foldl_push (rows : List (TrajectoryRow R)) (firstLine : Bool) :
    (NextsKnown rows → ∃ parsed, Describes distanceBetween rows parsed ∧
        (rows.foldl ParseState.push { firstLine := firstLine }).finish distanceBetween =
          .ok parsed) ∧
      (¬NextsKnown rows →
        (rows.foldl ParseState.push { firstLine := firstLine }).finish distanceBetween =
          .error (.graph (.invalidArgument "edge references unknown point"))) := by
  obtain ⟨hgraph, hroute, hpending⟩ := foldl_push rows { firstLine := firstLine }
  obtain ⟨hpoints, hedges, hconsistent⟩ := foldl_addPoint rows
  rw [← hgraph] at hpoints hedges hconsistent
  have hknown : NextsKnown rows ↔ ∀ e ∈ rows.filterMap TrajectoryRow.edge,
      e.1 ∈ (rows.foldl ParseState.push { firstLine := firstLine }).graph.points ∧
        e.2 ∈ (rows.foldl ParseState.push { firstLine := firstLine }).graph.points := by
    simp only [mem_points_iff hpoints, List.mem_filterMap, TrajectoryRow.edge,
      Option.map_eq_some_iff]
    constructor
    · rintro h e ⟨row, hrow, next, hnext, rfl⟩
      exact ⟨⟨row, hrow, rfl⟩, h row hrow next hnext⟩
    · intro h row hrow next hnext
      exact (h _ ⟨row, hrow, next, hnext, rfl⟩).2
  have hlengths : (rows.foldl ParseState.push { firstLine := firstLine }).graph.LengthsMatch
      distanceBetween := by
    intro edge hedge
    rw [hedges] at hedge
    cases hedge
  rw [ParseState.finish, hpending, hknown]
  constructor
  · intro hall
    obtain ⟨graph, hrun, hsame, hadded, hconsistent', hlengths'⟩ :=
      addEdges_of_known hall hconsistent hlengths
    refine ⟨⟨graph, _⟩, ?_, by rw [List.nil_append, hrun]⟩
    constructor
    case route => exact hroute
    case points => exact fun id => by rw [hsame, hpoints]
    case edges => rw [hadded, hedges, List.map_nil, List.nil_append]
    case lengths => exact hlengths'
    case consistent => exact hconsistent'
  · intro hbad
    push Not at hbad
    obtain ⟨e, he, hunknown⟩ := hbad
    obtain ⟨left, hrun⟩ := addEdges_of_unknown distanceBetween
      ⟨e, he, not_and.mpr hunknown⟩
    rw [List.nil_append, hrun]

/-- After the first line the loop reads every line that is not empty. -/
theorem foldlM_parseLine {stod : List Char → Except LoadError R} (lines : List (List Char))
    {s : ParseState R} (hs : s.firstLine = false) :
    lines.foldlM (parseLine stod) s =
      ((lines.filter (· ≠ [])).mapM (readRow stod)).map (List.foldl ParseState.push s) := by
  induction lines generalizing s with
  | nil => rfl
  | cons line lines ih =>
    rw [List.foldlM_cons, List.filter_cons]
    by_cases hblank : line = []
    · have hskip : parseLine stod s line = .ok s := if_pos hblank
      rw [hskip, if_neg (by simpa using hblank)]
      exact ih hs
    · have hstep : parseLine stod s line = (readRow stod line >>= fun row => .ok (s.push row)) := by
        rw [parseLine, if_neg hblank, if_neg (by simp [hs])]
      rw [hstep, if_pos (by simpa using hblank), List.mapM_cons]
      cases hrow : readRow stod line with
      | error e => rfl
      | ok row =>
        refine (ih (s := s.push row) rfl).trans ?_
        cases (lines.filter (· ≠ [])).mapM (readRow stod) <;> rfl

/-- The loop reads the data lines one by one. -/
theorem foldlM_parseLine_eq (stod : List Char → Except LoadError R) (content : List Char) :
    ∃ firstLine, (Getline.items '\n' content).foldlM (parseLine stod) {} =
      ((dataLines content).mapM (readRow stod)).map
        (List.foldl ParseState.push { firstLine := firstLine }) := by
  rw [dataLines]
  induction Getline.items '\n' content with
  | nil => exact ⟨true, rfl⟩
  | cons line lines ih =>
    rw [List.foldlM_cons, List.filter_cons]
    by_cases hblank : line = []
    · have hskip : parseLine stod {} line = .ok {} := if_pos hblank
      rw [hskip, if_neg (by simpa using hblank)]
      exact ih
    · rw [if_pos (by simpa using hblank), dropHeader]
      by_cases hheader : isHeader line = true
      · have hskip : parseLine stod {} line = .ok { firstLine := false } := by
          simp [parseLine, hblank, hheader]
        rw [hskip, if_pos hheader]
        exact ⟨false, foldlM_parseLine lines rfl⟩
      · have hstep : parseLine stod {} line =
            (readRow stod line >>= fun row => .ok (ParseState.push {} row)) := by
          rw [parseLine, if_neg hblank, if_neg (by simp [hheader])]
        rw [hstep, if_neg hheader, List.mapM_cons]
        refine ⟨true, ?_⟩
        cases hrow : readRow stod line with
        | error e => rfl
        | ok row =>
          refine (foldlM_parseLine (s := ParseState.push {} row) lines rfl).trans ?_
          cases (lines.filter (· ≠ [])).mapM (readRow stod) <;> rfl

variable (distanceBetween) in
theorem exists_describes (h : NextsKnown rows) :
    ∃ parsed, Describes distanceBetween rows parsed := by
  obtain ⟨parsed, hdescribes, -⟩ := (finish_foldl_push distanceBetween rows true).1 h
  exact ⟨parsed, hdescribes⟩

section

variable {stod : List Char → Except LoadError R} {path : String} {content : List Char}

theorem parseTrajectoryCsv_of_unread {error : LoadError}
    (h : (dataLines content).mapM (readRow stod) = .error error) :
    parseTrajectoryCsv distanceBetween stod path (some content) = .error (.number error) := by
  obtain ⟨firstLine, hloop⟩ := foldlM_parseLine_eq stod content
  rw [h] at hloop
  simp only [parseTrajectoryCsv, hloop, Except.map]

theorem parseTrajectoryCsv_of_unknown
    (h : (dataLines content).mapM (readRow stod) = .ok rows) (hnexts : ¬NextsKnown rows) :
    parseTrajectoryCsv distanceBetween stod path (some content) =
      .error (.graph (.invalidArgument "edge references unknown point")) := by
  obtain ⟨firstLine, hloop⟩ := foldlM_parseLine_eq stod content
  rw [h] at hloop
  simp only [parseTrajectoryCsv, hloop, Except.map]
  exact (finish_foldl_push distanceBetween rows firstLine).2 hnexts

variable (distanceBetween path) in
theorem parseTrajectoryCsv_of_known
    (h : (dataLines content).mapM (readRow stod) = .ok rows) (hnexts : NextsKnown rows) :
    ∃ parsed, Describes distanceBetween rows parsed ∧
      parseTrajectoryCsv distanceBetween stod path (some content) = .ok parsed := by
  obtain ⟨firstLine, hloop⟩ := foldlM_parseLine_eq stod content
  rw [h] at hloop
  simp only [parseTrajectoryCsv, hloop, Except.map]
  exact (finish_foldl_push distanceBetween rows firstLine).1 hnexts

theorem parseTrajectoryCsv_eq_ok :
    parseTrajectoryCsv distanceBetween stod path (some content) = .ok parsed ↔
      ∃ rows, List.Forall₂ (fun line row => readRow stod line = .ok row) (dataLines content)
        rows ∧ NextsKnown rows ∧ Describes distanceBetween rows parsed := by
  simp only [← Fallible.mapM_eq_ok]
  constructor
  · intro h
    cases hrows : (dataLines content).mapM (readRow stod) with
    | error e =>
      rw [parseTrajectoryCsv_of_unread hrows] at h
      cases h
    | ok rows =>
      by_cases hnexts : NextsKnown rows
      · obtain ⟨parsed', hdescribes, hparse⟩ := parseTrajectoryCsv_of_known
          distanceBetween path hrows hnexts
        cases hparse.symm.trans h
        exact ⟨rows, rfl, hnexts, hdescribes⟩
      · rw [parseTrajectoryCsv_of_unknown hrows hnexts] at h
        cases h
  · rintro ⟨rows, hrows, hnexts, hdescribes⟩
    obtain ⟨parsed', hdescribes', hparse⟩ := parseTrajectoryCsv_of_known
      distanceBetween path hrows hnexts
    rw [hparse, hdescribes'.unique hdescribes]

end

/-- **Which files are accepted.** A file is accepted exactly when all of its rows can be read
    and the id that a row leads to is that of a row, before it or after it. The trajectory is
    then the one that the rows describe, also when an id is used twice. When the rows can be
    read and an id is missing, that is the error. -/
theorem parseTrajectoryCsv_spec (distanceBetween : Point R → Point R → R)
    (stod : List Char → Except LoadError R) (path : String) (content : List Char) :
    (∀ parsed, parseTrajectoryCsv distanceBetween stod path (some content) = .ok parsed ↔
        ∃ rows, List.Forall₂ (fun line row => readRow stod line = .ok row) (dataLines content)
          rows ∧ NextsKnown rows ∧ Describes distanceBetween rows parsed) ∧
      (parseTrajectoryCsv distanceBetween stod path (some content) =
          .error (.graph (.invalidArgument "edge references unknown point")) ↔
        ∃ rows, List.Forall₂ (fun line row => readRow stod line = .ok row) (dataLines content)
          rows ∧ ¬NextsKnown rows) ∧
      ∀ error, parseTrajectoryCsv distanceBetween stod path (some content) =
          .error (.number error) ↔ (dataLines content).mapM (readRow stod) = .error error := by
  refine ⟨fun parsed => parseTrajectoryCsv_eq_ok, ?_⟩
  simp only [← Fallible.mapM_eq_ok]
  cases hrows : (dataLines content).mapM (readRow stod) with
  | error e =>
    rw [parseTrajectoryCsv_of_unread hrows]
    simp
  | ok rows =>
    by_cases hnexts : NextsKnown rows
    · obtain ⟨parsed, -, hparse⟩ := parseTrajectoryCsv_of_known
        distanceBetween path hrows hnexts
      rw [hparse]
      simp [hnexts]
    · rw [parseTrajectoryCsv_of_unknown hrows hnexts]
      simp [hnexts]

end TrajectoryGraph

end AccelSim
