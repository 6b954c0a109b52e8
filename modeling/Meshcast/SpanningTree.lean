import Meshcast.Graph.Reachability

/-!
# Meshcast — spanning trees

A rooted tree grows by attachments: each hangs a new node under a node that is there already. The
tree has two indexes. One tells under which node a node hangs, and the other which nodes are next to
it, in either direction. What lies behind a neighbor and what is between two nodes is found by
searching the tree along its edges, in either direction.
-/

namespace Meshcast

/-- A node hung under another one. -/
structure Attachment where
  child : NodeId
  parent : NodeId
  weight : Weight
deriving DecidableEq

/-- A tree that grew from its root. -/
structure SpanningTree where
  root : NodeId
  /-- Of each node but the root, the node it hangs under and the weight of the edge between them. -/
  parents : Std.ExtTreeMap NodeId (NodeId × Weight)
  /-- Of each node, the nodes at the other ends of its edges. -/
  adjacency : Std.ExtTreeMap NodeId NodeSet
deriving DecidableEq

namespace SpanningTree

def singleton (root : NodeId) : SpanningTree :=
  { root, parents := ∅, adjacency := (∅ : Std.ExtTreeMap NodeId NodeSet).insert root ∅ }

/-- The nodes that share an edge with a node. -/
def neighbors (t : SpanningTree) (node : NodeId) : NodeSet :=
  t.adjacency[node]?.getD ∅

def attach (t : SpanningTree) (child parent : NodeId) (weight : Weight) : SpanningTree :=
  let adjacency := t.adjacency.insert parent ((t.neighbors parent).insert child)
  { t with
    parents := t.parents.insert child (parent, weight)
    adjacency := adjacency.insert child ((adjacency[child]?.getD ∅).insert parent) }

/-- The tree in which every other node hangs directly under the root. -/
def star (root : NodeId) (nodes : NodeSet) : SpanningTree :=
  (nodes.erase root).foldl (fun t node => t.attach node root unitWeight) (singleton root)

def nodes (t : SpanningTree) : NodeSet :=
  .ofList t.adjacency.keys

def contains (t : SpanningTree) (node : NodeId) : Bool :=
  t.adjacency.contains node

def size (t : SpanningTree) : Nat :=
  t.adjacency.size

def edges (t : SpanningTree) : List Attachment :=
  t.parents.toList.map fun (child, parent, weight) => { child, parent, weight }

def totalWeight (t : SpanningTree) : Nat :=
  t.parents.foldl (fun total _ (_, weight) => total + weight) 0

def parent? (t : SpanningTree) (node : NodeId) : Option NodeId :=
  t.parents[node]?.map Prod.fst

/-- The nodes reached over `via` when coming from `origin`, which is not entered again; none if there
is no edge between the two. -/
def branch (t : SpanningTree) (origin via : NodeId) : NodeSet :=
  if (t.neighbors origin).contains via then
    Graph.explore (fun node => (t.neighbors node).erase origin) t.size [via] (.ofList [via])
  else ∅

/-- Search from `origin`, where nodes are visited in the order in which they are found, until
`target` has its turn. Of each node that is found it is recorded from which one. Every node is found
once, so there are no more visits than nodes. -/
def search (t : SpanningTree) (origin target : NodeId) :
    (fuel : Nat) → (queue : List NodeId) → (previous : Std.ExtTreeMap NodeId NodeId) →
      Std.ExtTreeMap NodeId NodeId
  | 0, _, previous => previous
  | _ + 1, [], previous => previous
  | fuel + 1, node :: queue, previous =>
    if node = target then previous
    else
      let found := (t.neighbors node).toList.filter fun next =>
        next != origin && !previous.contains next
      t.search origin target fuel (queue ++ found)
        (found.foldl (fun previous next => previous.insert next node) previous)

/-- The way from `origin` to a node by which it was found, followed by `rest`. It has no more edges
than there is fuel. -/
def traceBack (previous : Std.ExtTreeMap NodeId NodeId) (origin : NodeId) :
    (fuel : Nat) → (node : NodeId) → (rest : List NodeId) → Option (List NodeId)
  | 0, node, rest => if node = origin then some (node :: rest) else none
  | fuel + 1, node, rest =>
    if node = origin then some (node :: rest)
    else previous[node]?.bind fun before => traceBack previous origin fuel before (node :: rest)

/-- The way between two nodes, both ends included. -/
def path? (t : SpanningTree) (u v : NodeId) : Option (List NodeId) :=
  if t.contains u && t.contains v then
    traceBack (t.search u v t.size [u] ∅) u t.size v []
  else none

/-- How many edges are between the root and a node. -/
def depth? (t : SpanningTree) (node : NodeId) : Option Nat :=
  (t.path? t.root node).map fun path => path.length - 1

/-- For each neighbor of a node the rest of the branch behind it. -/
def headers (t : SpanningTree) (source : NodeId) : List (NodeId × NodeSet) :=
  (t.neighbors source).toList.map fun via => (via, (t.branch source via).erase via)

end SpanningTree

end Meshcast
