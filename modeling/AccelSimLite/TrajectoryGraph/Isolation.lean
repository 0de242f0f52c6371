import AccelSimLite.TrajectoryGraph.Components

/-!
# Disconnected nodes

`disconnected_nodes` looks for empty adjacency lists, and `connected_components` walks
along them. A point with a self-loop is its own neighbor: its list is not empty, while
the traversal that starts at it finds nothing else.

## Main definitions

- `TrajectoryGraph.Alone` — the connected component of a point is that point alone
- `TrajectoryGraph.IsolationAgrees` — the disconnected nodes are the points that are alone

## Main results

- `Consistent.mem_disconnectedNodes` — what is returned
- `isolationAgrees_afterAll_iff` — the graphs on which the two computations agree
-/

namespace AccelSim

namespace TrajectoryGraph

variable {R : Type} {graph : TrajectoryGraph R}

/-- The component of the point, as `connected_components` counts it, has no other point. -/
def Alone (graph : TrajectoryGraph R) (a : graph.pointIds) : Prop :=
  ∀ b, Relation.EqvGen graph.Joined a b → b = a

/-- The disconnected nodes are the ids of the points that are alone, in increasing order. -/
structure IsolationAgrees (graph : TrajectoryGraph R) (order : List UInt64) : Prop where
  sorted : (graph.disconnectedNodes order).Pairwise (· < ·)
  mem_iff : ∀ id, id ∈ graph.disconnectedNodes order ↔ ∃ h : id ∈ graph.pointIds,
    graph.Alone ⟨id, h⟩

/-- A point with a self-loop also has an edge to another point. -/
def LoopsJoined (graph : TrajectoryGraph R) : Prop :=
  ∀ loop ∈ graph.edges, loop.fromId = loop.toId →
    ∃ edge ∈ graph.edges, ∃ other ∈ edge.opposites loop.fromId, other ≠ loop.fromId

theorem isDisconnected_iff {id : UInt64} :
    graph.isDisconnected id = true ↔ graph.neighbors id = [] := by
  rw [isDisconnected, neighbors]
  cases graph.adjacency.lookup id with
  | none => simp
  | some neighbors => simp

theorem mem_disconnectedNodes {order : List UInt64} (horder : graph.IterationOrder order)
    {id : UInt64} :
    id ∈ graph.disconnectedNodes order ↔ id ∈ graph.pointIds ∧ graph.neighbors id = [] := by
  have hmem : id ∈ order ↔ id ∈ graph.points := by
    rw [← List.mem_toFinset, horder.2, Finmap.mem_keys]
  rw [disconnectedNodes, List.mem_insertionSort, List.mem_filter, isDisconnected_iff, hmem]
  rfl

theorem disconnectedNodes_sorted {order : List UInt64} (horder : graph.IterationOrder order) :
    (graph.disconnectedNodes order).Pairwise (· < ·) := by
  have hle := List.pairwise_insertionSort (· ≤ ·) (order.filter graph.isDisconnected)
  have hnodup : (graph.disconnectedNodes order).Nodup :=
    (List.perm_insertionSort _ _).nodup_iff.mpr (horder.1.filter _)
  exact hle.imp₂ (fun a b hab hne => UInt64.lt_of_le_of_ne hab hne) hnodup

/-- A point is alone when it has no neighbor other than itself. -/
theorem Consistent.alone_iff (h : graph.Consistent) {id : UInt64} (hid : id ∈ graph.pointIds) :
    graph.Alone ⟨id, hid⟩ ↔ ∀ other ∈ graph.neighbors id, other = id := by
  rw [Alone, Traversal.eqvGen_alone_iff]
  have hneighbor (b : graph.pointIds) :
      graph.Joined ⟨id, hid⟩ b ∨ graph.Joined b ⟨id, hid⟩ ↔ (b : UInt64) ∈ graph.neighbors id :=
    (iff_of_eq (congrFun (congrFun h.neighbors_eq_symmGen ⟨id, hid⟩) b)).symm
  simp only [hneighbor]
  constructor
  · intro halone other hother
    exact congrArg Subtype.val (halone ⟨other, h.neighbors_mem hother⟩ hother)
  · intro hself b hb
    exact Subtype.ext (hself b hb)

/-- The opposite endpoints of the edges at a point are its neighbors. -/
theorem Consistent.mem_neighbors_opposites (h : graph.Consistent) {id other : UInt64} :
    other ∈ graph.neighbors id ↔ ∃ edge ∈ graph.edges, other ∈ edge.opposites id := by
  simp only [h.mem_neighbors, Edge.mem_opposites]

theorem Consistent.loopsJoined_iff (h : graph.Consistent) :
    graph.LoopsJoined ↔
      ∀ id, id ∈ graph.neighbors id → ∃ other ∈ graph.neighbors id, other ≠ id := by
  constructor
  · intro hloops id hid
    obtain ⟨loop, hloop, hends⟩ := h.mem_neighbors.mp hid
    have hfrom : loop.fromId = id := hends.elim And.left And.right
    have hto : loop.toId = id := hends.elim And.right And.left
    obtain ⟨edge, hedge, other, hother, hne⟩ := hloops loop hloop (hfrom.trans hto.symm)
    rw [hfrom] at hother hne
    exact ⟨other, h.mem_neighbors_opposites.mpr ⟨edge, hedge, hother⟩, hne⟩
  · intro hneighbors loop hloop heq
    have hself : loop.fromId ∈ graph.neighbors loop.fromId :=
      h.mem_neighbors.mpr ⟨loop, hloop, .inl ⟨rfl, heq.symm⟩⟩
    obtain ⟨other, hother, hne⟩ := hneighbors loop.fromId hself
    obtain ⟨edge, hedge, hopposite⟩ := h.mem_neighbors_opposites.mp hother
    exact ⟨edge, hedge, other, hopposite, hne⟩

/-- Lists whose members are all one element are empty, unless it is a member. -/
theorem eq_nil_iff_forall_eq {l : List UInt64} {id : UInt64} :
    (l = [] ↔ ∀ other ∈ l, other = id) ↔ (id ∈ l → ∃ other ∈ l, other ≠ id) := by
  constructor
  · intro h hid
    by_contra hnone
    push Not at hnone
    rw [h.mpr hnone] at hid
    cases hid
  · intro h
    constructor
    · rintro rfl other hother
      cases hother
    · intro hall
      by_contra hne
      obtain ⟨other, hother⟩ := List.exists_mem_of_ne_nil l hne
      obtain ⟨apart, hapart, hne'⟩ := h (hall other hother ▸ hother)
      exact hne' (hall apart hapart)

theorem Consistent.isolationAgrees_iff (h : graph.Consistent) {order : List UInt64}
    (horder : graph.IterationOrder order) :
    graph.IsolationAgrees order ↔ graph.LoopsJoined := by
  rw [h.loopsJoined_iff]
  constructor
  · intro hagrees id hid
    -- with no other neighbor the point would be alone, and its list is not empty
    have hpoint : id ∈ graph.pointIds := h.neighbors_mem hid
    have hiff := hagrees.mem_iff id
    simp only [mem_disconnectedNodes horder, hpoint, true_and, exists_true_left,
      h.alone_iff hpoint] at hiff
    exact eq_nil_iff_forall_eq.mp hiff hid
  · intro hloops
    refine ⟨disconnectedNodes_sorted horder, fun id => ?_⟩
    rw [mem_disconnectedNodes horder]
    constructor
    · rintro ⟨hpoint, hnil⟩
      exact ⟨hpoint, (h.alone_iff hpoint).mpr
        ((eq_nil_iff_forall_eq.mpr (hloops id)).mp hnil)⟩
    · rintro ⟨hpoint, halone⟩
      exact ⟨hpoint, (eq_nil_iff_forall_eq.mpr (hloops id)).mpr
        ((h.alone_iff hpoint).mp halone)⟩

/-- The two computations agree exactly on the graphs whose self-loops are at points that
    are joined with others. -/
theorem isolationAgrees_afterAll_iff (distanceBetween : Point R → Point R → R)
    (calls : List (GraphCall R)) {order : List UInt64}
    (horder : (GraphCall.afterAll distanceBetween calls).IterationOrder order) :
    (GraphCall.afterAll distanceBetween calls).IsolationAgrees order ↔
      (GraphCall.afterAll distanceBetween calls).LoopsJoined :=
  (consistent_afterAll distanceBetween calls).isolationAgrees_iff horder

/-- The graph of the components test. -/
def componentsTest : List (GraphCall ℤ) :=
  [.addPoint ⟨1, 0, 0⟩, .addPoint ⟨2, 1, 0⟩, .addPoint ⟨3, 10, 10⟩, .addEdge 1 2]

theorem isolationAgrees_componentsTest :
    (GraphCall.afterAll (fun _ _ => 0) componentsTest).IterationOrder [3, 1, 2] ∧
      (GraphCall.afterAll (fun _ _ => 0) componentsTest).IsolationAgrees [3, 1, 2] := by
  have horder : (GraphCall.afterAll (fun _ _ => 0) componentsTest).IterationOrder [3, 1, 2] :=
    ⟨by decide, by decide +kernel⟩
  have hedges : (GraphCall.afterAll (fun _ _ => 0) componentsTest).edges = [⟨1, 2, 0⟩] := by
    decide +kernel
  refine ⟨horder, (isolationAgrees_afterAll_iff (fun _ _ => 0) componentsTest horder).mpr ?_⟩
  intro loop hloop heq
  rw [hedges, List.mem_singleton] at hloop
  subst hloop
  exact absurd heq (by decide)

/-- A point on its own with an edge to itself. -/
def loneLoop : List (GraphCall ℤ) := [.addPoint ⟨1, 0, 0⟩, .addEdge 1 1]

/-- The one point is a component, and is not disconnected. -/
theorem isolationAgrees_loneLoop :
    (GraphCall.afterAll (fun _ _ => 0) loneLoop).IterationOrder [1] ∧
      (GraphCall.afterAll (fun _ _ => 0) loneLoop).connectedComponents 1 [1] = some 1 ∧
      (GraphCall.afterAll (fun _ _ => 0) loneLoop).disconnectedNodes [1] = [] ∧
      ¬(GraphCall.afterAll (fun _ _ => 0) loneLoop).IsolationAgrees [1] := by
  have hnodes : (GraphCall.afterAll (fun _ _ => 0) loneLoop).disconnectedNodes [1] = [] := by
    decide +kernel
  have hpoint : 1 ∈ (GraphCall.afterAll (fun _ _ => 0) loneLoop).pointIds := by
    change 1 ∈ (GraphCall.afterAll (fun _ _ => 0) loneLoop).points
    decide +kernel
  have hneighbors : (GraphCall.afterAll (fun _ _ => 0) loneLoop).neighbors 1 = [1, 1] := by
    decide +kernel
  have halone : (GraphCall.afterAll (fun _ _ => 0) loneLoop).Alone ⟨1, hpoint⟩ := by
    rw [(consistent_afterAll _ loneLoop).alone_iff hpoint, hneighbors]
    simp
  refine ⟨⟨by decide, by decide +kernel⟩, by decide +kernel, hnodes, ?_⟩
  intro hagrees
  have hmem := (hagrees.mem_iff 1).mpr ⟨hpoint, halone⟩
  rw [hnodes] at hmem
  cases hmem

end TrajectoryGraph

end AccelSim
