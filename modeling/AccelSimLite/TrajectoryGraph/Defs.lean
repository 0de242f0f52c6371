import AccelSimLite.Lib.Traversal
import Mathlib.Data.Finmap
import Mathlib.Data.List.Sort

/-!
# Trajectory graphs

A model of `trajectory_graph_lite`: points and edges, and the adjacency lists that
`connected_components` walks along.

## Main definitions

- `TrajectoryGraph` — the three containers
- `TrajectoryGraph.addPoint`, `TrajectoryGraph.addEdge` — the mutators
- `TrajectoryGraph.connectedComponents` — the count
- `TrajectoryGraph.disconnectedNodes` — the points without neighbors
- `TrajectoryGraph.totalEdgeDistance`, `TrajectoryGraph.averageEdgeDistance` — the
  distances stored in the edges
- `GraphCall` — a call of a mutator by a client

## Design notes

A hash map is a finite map without an order; a loop over one takes the order of its
keys as an argument. Coordinates are of any type, and `distanceBetween` stands for the
floating-point distance of two points.
-/

namespace AccelSim

structure Point (R : Type) where
  id : UInt64
  x : R
  y : R
  deriving DecidableEq

structure Edge (R : Type) where
  fromId : UInt64
  toId : UInt64
  distance : R
  deriving DecidableEq

inductive GraphError
  | invalidArgument (what : String)
  /-- `unordered_map::at` without an entry. -/
  | outOfRange
  deriving DecidableEq

structure TrajectoryGraph (R : Type) where
  points : Finmap fun _ : UInt64 => Point R := ∅
  adjacency : Finmap fun _ : UInt64 => List UInt64 := ∅
  edges : List (Edge R) := []

/-! ### Maps -/

/-- `map.try_emplace(key)`, for an entry that starts as `value`. -/
def tryEmplace {β : Type} (map : Finmap fun _ : UInt64 => β) (key : UInt64) (value : β) :
    Finmap fun _ : UInt64 => β :=
  match map.lookup key with
  | some _ => map
  | none => map.insert key value

/-- `map[key].push_back(value)`, which creates a missing entry. -/
def pushBack {β : Type} (map : Finmap fun _ : UInt64 => List β) (key : UInt64) (value : β) :
    Finmap fun _ : UInt64 => List β :=
  map.insert key ((map.lookup key).getD [] ++ [value])

theorem lookup_insert {β : Type} (map : Finmap fun _ : UInt64 => β) (key a : UInt64) (value : β) :
    (map.insert key value).lookup a = if a = key then some value else map.lookup a := by
  split
  · rename_i heq
    subst heq
    exact Finmap.lookup_insert map
  · rename_i hne
    exact Finmap.lookup_insert_of_ne map hne

theorem lookup_tryEmplace {β : Type} (map : Finmap fun _ : UInt64 => β) (key a : UInt64)
    (value : β) :
    (tryEmplace map key value).lookup a =
      if a = key then some ((map.lookup key).getD value) else map.lookup a := by
  unfold tryEmplace
  split
  · rename_i hlookup
    split
    · rename_i heq
      rw [heq, hlookup, Option.getD_some]
    · rfl
  · rename_i hlookup
    rw [lookup_insert, hlookup, Option.getD_none]

theorem lookup_pushBack {β : Type} (map : Finmap fun _ : UInt64 => List β) (key a : UInt64)
    (value : β) :
    (pushBack map key value).lookup a =
      if a = key then some ((map.lookup key).getD [] ++ [value]) else map.lookup a :=
  lookup_insert map key a _

namespace TrajectoryGraph

variable {R : Type}

/-! ### The mutators -/

def addPoint (graph : TrajectoryGraph R) (point : Point R) : TrajectoryGraph R where
  points := graph.points.insert point.id point
  adjacency := tryEmplace graph.adjacency point.id []
  edges := graph.edges

def hasPoint (graph : TrajectoryGraph R) (id : UInt64) : Bool := (graph.points.lookup id).isSome

section

variable (distanceBetween : Point R → Point R → R)

def edgeDistance (graph : TrajectoryGraph R) (fromId toId : UInt64) : Except GraphError R :=
  match graph.points.lookup fromId, graph.points.lookup toId with
  | some a, some b => .ok (distanceBetween a b)
  | _, _ => .error .outOfRange

/-- An exception leaves the state in which it is thrown. -/
def addEdge (fromId toId : UInt64) : EStateM GraphError (TrajectoryGraph R) Unit := do
  let graph ← get
  if !graph.hasPoint fromId || !graph.hasPoint toId then
    throw (.invalidArgument "edge references unknown point")
  let distance ← MonadExcept.ofExcept (graph.edgeDistance distanceBetween fromId toId)
  modify fun graph => { graph with edges := graph.edges ++ [⟨fromId, toId, distance⟩] }
  modify fun graph => { graph with adjacency := pushBack graph.adjacency fromId toId }
  modify fun graph => { graph with adjacency := pushBack graph.adjacency toId fromId }

end

/-! ### Connected components -/

/-- The loop over the neighbors of a point; without an entry there are none. -/
def neighbors (graph : TrajectoryGraph R) (current : UInt64) : List UInt64 :=
  match graph.adjacency.lookup current with
  | none => []
  | some neighbors => neighbors

/-- The count, for an order in which the loop over `points_` takes the points; `none`
    when a traversal has used up its fuel. -/
def connectedComponents (graph : TrajectoryGraph R) (fuel : ℕ) (order : List UInt64) : Option ℕ :=
  Traversal.components graph.neighbors fuel order

/-- An order in which a loop over `points_` may take the points. -/
def IterationOrder (graph : TrajectoryGraph R) (order : List UInt64) : Prop :=
  order.Nodup ∧ order.toFinset = graph.points.keys

/-- The condition in the loop of `disconnected_nodes`. -/
def isDisconnected (graph : TrajectoryGraph R) (id : UInt64) : Bool :=
  match graph.adjacency.lookup id with
  | none => true
  | some neighbors => neighbors.isEmpty

/-- The ids that the loop over `points_` has found, sorted. -/
def disconnectedNodes (graph : TrajectoryGraph R) (order : List UInt64) : List UInt64 :=
  (order.filter graph.isDisconnected).insertionSort (· ≤ ·)

/-! ### Distances -/

def totalEdgeDistance [Zero R] [Add R] (graph : TrajectoryGraph R) : R :=
  graph.edges.foldl (fun total edge => total + edge.distance) 0

def averageEdgeDistance [Zero R] [Add R] [Div R] [NatCast R] (graph : TrajectoryGraph R) : R :=
  if graph.edges.isEmpty then 0 else graph.totalEdgeDistance / graph.edges.length

end TrajectoryGraph

/-! ### Clients -/

/-- A call of one of the mutators. -/
inductive GraphCall (R : Type)
  | addPoint (point : Point R)
  | addEdge (fromId toId : UInt64)

namespace GraphCall

variable {R : Type} (distanceBetween : Point R → Point R → R)

def action : GraphCall R → EStateM GraphError (TrajectoryGraph R) Unit
  | .addPoint point => modify fun graph => graph.addPoint point
  | .addEdge fromId toId => TrajectoryGraph.addEdge distanceBetween fromId toId

/-- The graph that a call leaves, returning or throwing. -/
def after (graph : TrajectoryGraph R) (call : GraphCall R) : TrajectoryGraph R :=
  match (call.action distanceBetween).run graph with
  | .ok _ graph => graph
  | .error _ graph => graph

/-- The graph after some calls on an empty one, of which any may have thrown. -/
def afterAll (calls : List (GraphCall R)) : TrajectoryGraph R :=
  calls.foldl (after distanceBetween) {}

end GraphCall

end AccelSim
