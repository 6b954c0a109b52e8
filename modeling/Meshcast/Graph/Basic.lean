import Std.Data.ExtTreeMap
import Meshcast.NodeId

/-!
# Meshcast — weighted directed graphs

A graph holds its nodes, for each node the weights of its outgoing edges, and for each node the
sources of its incoming ones. The two indexes say the same: there is a weight from `u` to `v`
exactly when `u` is among the sources of `v`. Removing edges leaves rows of the indexes behind, even
empty ones, and equality of graphs is equality of nodes and rows.
-/

namespace Meshcast

abbrev Weight := Nat

/-- The largest weight; longer lengths count as this one. -/
def maxWeight : Weight := 4294967295

def unitWeight : Weight := 1

/-- A directed edge with its weight. -/
structure Edge where
  source : NodeId
  target : NodeId
  weight : Weight
deriving DecidableEq

/-- A directed graph with weighted edges and no loops. -/
structure Graph where
  nodes : NodeSet := ∅
  outgoing : Std.ExtTreeMap NodeId (Std.ExtTreeMap NodeId Weight) := ∅
  incoming : Std.ExtTreeMap NodeId NodeSet := ∅
deriving DecidableEq

namespace Graph

def singleton (node : NodeId) : Graph :=
  { nodes := .ofList [node] }

def contains (g : Graph) (node : NodeId) : Bool :=
  g.nodes.contains node

/-- The outgoing edges of a node, as weights by target. -/
def targets (g : Graph) (node : NodeId) : Std.ExtTreeMap NodeId Weight :=
  g.outgoing[node]?.getD ∅

def predecessors (g : Graph) (node : NodeId) : NodeSet :=
  g.incoming[node]?.getD ∅

def successors (g : Graph) (node : NodeId) : NodeSet :=
  .ofList (g.targets node).keys

/-- The nodes next to a node, in either direction. -/
def neighbors (g : Graph) (node : NodeId) : NodeSet :=
  g.successors node ∪ g.predecessors node

def weight? (g : Graph) (u v : NodeId) : Option Weight :=
  (g.targets u)[v]?

/-- The weight between two nodes: that of the lighter direction. -/
def undirectedWeight? (g : Graph) (u v : NodeId) : Option Weight :=
  match g.weight? u v, g.weight? v u with
  | some a, some b => some (min a b)
  | some a, none => some a
  | none, b => b

def edges (g : Graph) : List Edge :=
  g.outgoing.toList.flatMap fun (source, row) =>
    row.toList.map fun (target, weight) => { source, target, weight }

def nodeCount (g : Graph) : Nat :=
  g.nodes.size

def edgeCount (g : Graph) : Nat :=
  g.outgoing.foldl (fun count _ row => count + row.size) 0

/-- Add a node; says whether it is new. -/
def insertNode (g : Graph) (node : NodeId) : Bool × Graph :=
  (!g.contains node, { g with nodes := g.nodes.insert node })

def addNode (g : Graph) (node : NodeId) : Graph :=
  (g.insertNode node).2

/-- Add an edge and its ends, or give an edge another weight. Loops are not added. -/
def addEdge (g : Graph) (u v : NodeId) (weight : Weight) : Graph :=
  if u = v then g
  else
    { nodes := (g.nodes.insert u).insert v
      outgoing := g.outgoing.insert u ((g.targets u).insert v weight)
      incoming := g.incoming.insert v ((g.predecessors v).insert u) }

/-- Add edges of the same weight in both directions. -/
def connect (g : Graph) (u v : NodeId) (weight : Weight) : Graph :=
  (g.addEdge u v weight).addEdge v u weight

/-- Add an edge unless it is a loop or one at most as heavy is there; says whether it was added. -/
def addEdgeIfCheaper (g : Graph) (u v : NodeId) (weight : Weight) : Bool × Graph :=
  if u = v || (g.weight? u v).any (· ≤ weight) then (false, g)
  else (true, g.addEdge u v weight)

def removeEdge (g : Graph) (u v : NodeId) : Option Weight × Graph :=
  match g.weight? u v with
  | none => (none, g)
  | some weight =>
    (some weight,
      { g with
        outgoing := g.outgoing.modify u (·.erase v)
        incoming := g.incoming.modify v (·.erase u) })

/-- Take a node and the edges at it away; says whether it was there. In each direction the row of the
node tells at which other ends it has to be taken out. -/
def takeNode (g : Graph) (node : NodeId) : Bool × Graph :=
  if g.contains node then
    let incoming := (g.targets node).keys.foldl
      (fun incoming target => incoming.modify target (·.erase node)) g.incoming
    let sources : NodeSet := incoming[node]?.getD ∅
    (true,
      { nodes := g.nodes.erase node
        outgoing := sources.toList.foldl
          (fun outgoing source => outgoing.modify source (·.erase node)) (g.outgoing.erase node)
        incoming := incoming.erase node })
  else (false, g)

def removeNode (g : Graph) (node : NodeId) : Graph :=
  (g.takeNode node).2

def withUnitWeights (g : Graph) : Graph :=
  { g with outgoing := g.outgoing.map fun _ row => row.map fun _ _ => unitWeight }

def ofNodesAndEdges (nodes : List NodeId) (edges : List Edge) : Graph :=
  edges.foldl (fun g e => g.addEdge e.source e.target e.weight) (nodes.foldl addNode {})

def restrictedTo (g : Graph) (keep : NodeSet) : Graph :=
  ofNodesAndEdges (g.nodes.filter keep.contains).toList
    (g.edges.filter fun e => keep.contains e.source && keep.contains e.target)

end Graph

end Meshcast
