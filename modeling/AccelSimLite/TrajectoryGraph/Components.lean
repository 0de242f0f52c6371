import AccelSimLite.TrajectoryGraph.Defs

/-!
# Counting connected components

The adjacency lists agree with the edges after any calls, thrown exceptions
included, so the traversals of `connected_components` walk along the edges in both
directions and count the classes of connected points.

## Main definitions

- `Edge.opposites` — the endpoints of an edge that are opposite to a point
- `TrajectoryGraph.Consistent` — the three containers agree
- `TrajectoryGraph.Joined` — an edge leads from one point to the other

## Main results

- `addEdge_run` — what `add_edge` does
- `consistent_afterAll` — the containers agree after all calls
- `connectedComponents_afterAll` — what is counted
-/

namespace AccelSim

/-- The opposite endpoints of an edge at a point: none when it is not incident, two when
    it is a self-loop. -/
def Edge.opposites {R : Type} (id : UInt64) (edge : Edge R) : List UInt64 :=
  (if edge.fromId = id then [edge.toId] else []) ++ (if edge.toId = id then [edge.fromId] else [])

theorem Edge.mem_opposites {R : Type} {id other : UInt64} {edge : Edge R} :
    other ∈ edge.opposites id ↔
      edge.fromId = id ∧ edge.toId = other ∨ edge.toId = id ∧ edge.fromId = other := by
  rw [opposites, List.mem_append]
  split_ifs with hfrom hto hto <;> simp [hfrom, hto, eq_comm]

namespace TrajectoryGraph

variable {R : Type} {graph : TrajectoryGraph R}

/-! ### The containers agree -/

theorem hasPoint_iff {id : UInt64} : graph.hasPoint id = true ↔ id ∈ graph.points :=
  Finmap.lookup_isSome

/-- The adjacency lists are those of the edges, and the edges are between points. -/
structure Consistent (graph : TrajectoryGraph R) : Prop where
  adjacency : ∀ id, graph.adjacency.lookup id =
    if id ∈ graph.points then some (graph.edges.flatMap (Edge.opposites id)) else none
  endpoints : ∀ edge ∈ graph.edges, edge.fromId ∈ graph.points ∧ edge.toId ∈ graph.points

theorem consistent_empty : Consistent ({} : TrajectoryGraph R) where
  adjacency id := by
    rw [if_neg Finmap.notMem_empty]
    exact Finmap.lookup_empty id
  endpoints edge hedge := absurd hedge List.not_mem_nil

/-- An edge at a point that is not in the graph has no list to be in. -/
theorem Consistent.flatMap_eq_nil (h : graph.Consistent) {id : UInt64} (hid : id ∉ graph.points) :
    graph.edges.flatMap (Edge.opposites id) = [] := by
  rw [List.flatMap_eq_nil_iff]
  intro edge hedge
  obtain ⟨hfrom, hto⟩ := h.endpoints edge hedge
  have hfromNe : edge.fromId ≠ id := fun heq => hid (heq ▸ hfrom)
  have htoNe : edge.toId ≠ id := fun heq => hid (heq ▸ hto)
  rw [Edge.opposites, if_neg hfromNe, if_neg htoNe]
  rfl

theorem Consistent.addPoint (h : graph.Consistent) (point : Point R) :
    (graph.addPoint point).Consistent where
  adjacency id := by
    change (tryEmplace graph.adjacency point.id []).lookup id =
      if id ∈ graph.points.insert point.id point then
        some (graph.edges.flatMap (Edge.opposites id)) else none
    rw [lookup_tryEmplace, h.adjacency, h.adjacency]
    by_cases hid : id = point.id
    · subst hid
      rw [if_pos rfl, if_pos (Finmap.mem_insert.mpr (.inl rfl))]
      split_ifs with hold
      · rfl
      · rw [h.flatMap_eq_nil hold, Option.getD_none]
    · rw [if_neg hid]
      simp only [Finmap.mem_insert, hid, false_or]
  endpoints edge hedge := by
    obtain ⟨hfrom, hto⟩ := h.endpoints edge hedge
    exact ⟨Finmap.mem_insert.mpr (.inr hfrom), Finmap.mem_insert.mpr (.inr hto)⟩

/-! ### Adding edges -/

variable (distanceBetween : Point R → Point R → R)

/-- The graph with one more edge. -/
def withEdge (graph : TrajectoryGraph R) (edge : Edge R) : TrajectoryGraph R where
  points := graph.points
  adjacency := pushBack (pushBack graph.adjacency edge.fromId edge.toId) edge.toId edge.fromId
  edges := graph.edges ++ [edge]

/-- `add_edge` throws and changes nothing, or the endpoints are points and an edge is
    added. -/
theorem addEdge_run (graph : TrajectoryGraph R) (fromId toId : UInt64) :
    ((fromId ∉ graph.points ∨ toId ∉ graph.points) ∧
        (addEdge distanceBetween fromId toId).run graph =
          .error (.invalidArgument "edge references unknown point") graph) ∨
      ((fromId ∈ graph.points ∧ toId ∈ graph.points) ∧
        ∃ a b, graph.points.lookup fromId = some a ∧ graph.points.lookup toId = some b ∧
          (addEdge distanceBetween fromId toId).run graph =
            .ok () (graph.withEdge ⟨fromId, toId, distanceBetween a b⟩)) := by
  by_cases hknown : fromId ∈ graph.points ∧ toId ∈ graph.points
  · obtain ⟨a, ha⟩ := Finmap.mem_iff.mp hknown.1
    obtain ⟨b, hb⟩ := Finmap.mem_iff.mp hknown.2
    refine .inr ⟨hknown, a, b, ha, hb, ?_⟩
    have hfrom : graph.hasPoint fromId = true := hasPoint_iff.mpr hknown.1
    have hto : graph.hasPoint toId = true := hasPoint_iff.mpr hknown.2
    have hdistance : graph.edgeDistance distanceBetween fromId toId =
        .ok (distanceBetween a b) := by
      rw [edgeDistance, ha, hb]
    have hbranch : (!graph.hasPoint fromId || !graph.hasPoint toId) ≠ true := by
      simp [hfrom, hto]
    rw [addEdge, EStateM.run_bind, EStateM.run_get]
    dsimp only
    rw [if_neg hbranch, EStateM.run_bind, hdistance]
    rfl
  · rw [not_and_or] at hknown
    refine .inl ⟨hknown, ?_⟩
    have hunknown : (!graph.hasPoint fromId || !graph.hasPoint toId) = true := by
      simpa [← hasPoint_iff] using hknown
    rw [addEdge, EStateM.run_bind, EStateM.run_get]
    dsimp only
    rw [if_pos hunknown]
    rfl

theorem Consistent.withEdge (h : graph.Consistent) {edge : Edge R}
    (hfrom : edge.fromId ∈ graph.points) (hto : edge.toId ∈ graph.points) :
    (graph.withEdge edge).Consistent where
  adjacency id := by
    change (pushBack (pushBack graph.adjacency edge.fromId edge.toId) edge.toId edge.fromId).lookup
      id = if id ∈ graph.points then
        some ((graph.edges ++ [edge]).flatMap (Edge.opposites id)) else none
    rw [lookup_pushBack, lookup_pushBack, lookup_pushBack]
    simp only [h.adjacency, List.flatMap_append, List.flatMap_singleton, Edge.opposites]
    by_cases hid : id = edge.toId
    · subst hid
      by_cases hloop : edge.fromId = edge.toId
      · simp [hloop, hto]
      · simp [hloop, hto, Ne.symm hloop]
    · by_cases hid' : id = edge.fromId
      · subst hid'
        simp [hid, hfrom, Ne.symm hid]
      · simp [hid, hid', Ne.symm hid, Ne.symm hid']
  endpoints e he := by
    rcases List.mem_append.mp he with he | he
    · exact h.endpoints e he
    · rw [List.mem_singleton] at he
      subst he
      exact ⟨hfrom, hto⟩

/-! ### Any calls -/

theorem Consistent.after (h : graph.Consistent) (call : GraphCall R) :
    (call.after distanceBetween graph).Consistent := by
  cases call with
  | addPoint point => exact h.addPoint point
  | addEdge fromId toId =>
    rw [GraphCall.after, GraphCall.action]
    rcases addEdge_run distanceBetween graph fromId toId with
      ⟨-, hrun⟩ | ⟨⟨hfrom, hto⟩, a, b, -, -, hrun⟩
    · rw [hrun]
      exact h
    · rw [hrun]
      exact h.withEdge hfrom hto

theorem consistent_afterAll (calls : List (GraphCall R)) :
    (GraphCall.afterAll distanceBetween calls).Consistent := by
  have hfold (graph : TrajectoryGraph R) (hgraph : graph.Consistent) :
      (calls.foldl (GraphCall.after distanceBetween) graph).Consistent := by
    induction calls generalizing graph with
    | nil => exact hgraph
    | cons call calls ih => exact ih _ (hgraph.after distanceBetween call)
  exact hfold _ consistent_empty

/-! ### Connected components -/

/-- The ids of the points. -/
def pointIds (graph : TrajectoryGraph R) : Set UInt64 := {id | id ∈ graph.points}

/-- An edge leads from one point to the other. -/
def Joined (graph : TrajectoryGraph R) (a b : graph.pointIds) : Prop :=
  ∃ edge ∈ graph.edges, edge.fromId = a ∧ edge.toId = b

theorem Consistent.mem_neighbors (h : graph.Consistent) {a b : UInt64} :
    b ∈ graph.neighbors a ↔ ∃ edge ∈ graph.edges,
      edge.fromId = a ∧ edge.toId = b ∨ edge.toId = a ∧ edge.fromId = b := by
  have hneighbors : graph.neighbors a = graph.edges.flatMap (Edge.opposites a) := by
    rw [neighbors, h.adjacency]
    by_cases ha : a ∈ graph.points
    · rw [if_pos ha]
    · rw [if_neg ha, h.flatMap_eq_nil ha]
  simp only [hneighbors, List.mem_flatMap, Edge.mem_opposites]

theorem Consistent.neighbors_symm (h : graph.Consistent) (a b : UInt64)
    (hb : b ∈ graph.neighbors a) : a ∈ graph.neighbors b := by
  obtain ⟨edge, hedge, hends⟩ := h.mem_neighbors.mp hb
  exact h.mem_neighbors.mpr ⟨edge, hedge, hends.elim (fun he => .inr ⟨he.2, he.1⟩)
    fun he => .inl ⟨he.2, he.1⟩⟩

theorem Consistent.neighbors_mem (h : graph.Consistent) {a b : UInt64}
    (hb : b ∈ graph.neighbors a) : b ∈ graph.points := by
  obtain ⟨edge, hedge, ⟨-, rfl⟩ | ⟨-, rfl⟩⟩ := h.mem_neighbors.mp hb
  · exact (h.endpoints edge hedge).2
  · exact (h.endpoints edge hedge).1

/-- The neighbors of a point are the points that an edge joins it with, in either
    direction. -/
theorem Consistent.neighbors_eq_symmGen (h : graph.Consistent) :
    (fun a b : graph.pointIds => (b : UInt64) ∈ graph.neighbors a) =
      Relation.SymmGen graph.Joined := by
  funext a b
  refine propext (h.mem_neighbors.trans ⟨?_, ?_⟩)
  · rintro ⟨edge, hedge, hends | hends⟩
    · exact Or.inl ⟨edge, hedge, hends⟩
    · exact Or.inr ⟨edge, hedge, hends.2, hends.1⟩
  · rintro (⟨edge, hedge, hends⟩ | ⟨edge, hedge, hends⟩)
    · exact ⟨edge, hedge, .inl hends⟩
    · exact ⟨edge, hedge, .inr ⟨hends.2, hends.1⟩⟩

/-- With as much fuel as there are points, the classes of connected points are counted. -/
theorem Consistent.connectedComponents_eq (h : graph.Consistent) {order : List UInt64}
    (horder : graph.IterationOrder order) {fuel : ℕ} (hfuel : graph.points.keys.card ≤ fuel) :
    graph.connectedComponents fuel order =
      some (Nat.card (Quotient (Relation.EqvGen.setoid graph.Joined))) := by
  have hmem (id : UInt64) : id ∈ order ↔ id ∈ graph.points := by
    rw [← List.mem_toFinset, horder.2, Finmap.mem_keys]
  have hall : ∀ a ∈ graph.points.keys, ∀ b ∈ graph.neighbors a, b ∈ graph.points.keys := by
    intro a _ b hb
    exact Finmap.mem_keys.mpr (h.neighbors_mem hb)
  have hclosed : ∀ a ∈ graph.pointIds, ∀ b ∈ graph.neighbors a, b ∈ graph.pointIds :=
    fun _ _ _ hb => h.neighbors_mem hb
  have hset : {id | id ∈ order} = graph.pointIds := by
    ext id
    exact hmem id
  have hsetoid : Relation.EqvGen.setoid
      (fun a b : graph.pointIds => (b : UInt64) ∈ graph.neighbors a) =
      Relation.EqvGen.setoid graph.Joined := by
    ext a b
    change Relation.EqvGen _ a b ↔ Relation.EqvGen _ a b
    rw [h.neighbors_eq_symmGen, Relation.EqvGen.eqvGen_symmGen]
  rw [connectedComponents, Traversal.components_eq_ncard h.neighbors_symm hall hfuel order
      fun id hid => Finmap.mem_keys.mpr ((hmem id).mp hid),
    hset, Traversal.ncard_component_image h.neighbors_symm hclosed, hsetoid]

/-- After any calls: the adjacency lists are those of the edges, an exception has changed
    nothing, and `connected_components` returns the number of classes of connected points,
    in whatever order it takes them. -/
theorem connectedComponents_afterAll (calls : List (GraphCall R)) :
    let graph := GraphCall.afterAll distanceBetween calls
    (graph.adjacency.keys = graph.points.keys ∧ ∀ id ∈ graph.points,
        graph.adjacency.lookup id = some (graph.edges.flatMap (Edge.opposites id))) ∧
      (∀ fromId toId error left,
        (addEdge distanceBetween fromId toId).run graph = .error error left → left = graph) ∧
      ∀ order, graph.IterationOrder order → ∀ fuel, graph.points.keys.card ≤ fuel →
        graph.connectedComponents fuel order =
          some (Nat.card (Quotient (Relation.EqvGen.setoid graph.Joined))) := by
  intro graph
  have hconsistent : graph.Consistent := consistent_afterAll distanceBetween calls
  refine ⟨⟨?_, ?_⟩, ?_, ?_⟩
  · ext id
    rw [Finmap.mem_keys, Finmap.mem_keys, ← Finmap.lookup_isSome, hconsistent.adjacency]
    by_cases hid : id ∈ graph.points
    · simp [hid]
    · simp [hid]
  · intro id hid
    rw [hconsistent.adjacency, if_pos hid]
  · intro fromId toId error left hthrow
    rcases addEdge_run distanceBetween graph fromId toId with
      ⟨-, hrun⟩ | ⟨-, a, b, -, -, hrun⟩
    · rw [hrun] at hthrow
      cases hthrow
      rfl
    · rw [hrun] at hthrow
      cases hthrow
  · intro order horder fuel hfuel
    exact hconsistent.connectedComponents_eq horder hfuel

/-- Two joined points with a self-loop and a point apart; the edge to point 7 is refused. -/
example :
    (GraphCall.afterAll (fun _ _ => 0) [.addPoint ⟨1, 0, 0⟩, .addPoint ⟨2, 1, 0⟩, .addEdge 1 2,
        .addEdge 2 2, .addEdge 1 7, .addPoint ⟨3, 10, 10⟩]).connectedComponents 3 [3, 1, 2] =
      some 2 := by
  decide +kernel

end TrajectoryGraph
end AccelSim
