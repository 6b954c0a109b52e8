import Meshcast.Graph.Prim
import Meshcast.Overlay.Grace
import Meshcast.Registry

/-!
# Meshcast — multicast overlays

Over each multicast group a node keeps the contracted graph of its members, a spanning tree of it
rooted at the node itself, and the members that left recently.
-/

namespace Meshcast

/-- The overlay of one group, as the node `self` sees it. -/
structure Overlay where
  group : Address
  self : NodeId
  graceTicks : Nat
  graph : Graph := .singleton self
  tree : SpanningTree := .singleton self
  grace : Grace := .nobody

namespace Overlay

/-- The spanning tree of a graph: a minimum one, or a star over its nodes if there is none. -/
def treeOver (self : NodeId) (graph : Graph) : SpanningTree :=
  match graph.minimumSpanningTree self with
  | .ok tree => tree
  | .error _ => .star self graph.nodes

/-- Install a graph and its tree. Nodes that are no longer in the tree start their grace period,
nodes that are in it end theirs. -/
def update (o : Overlay) (graph : Graph) : Overlay :=
  let tree := treeOver o.self graph
  let departed := o.tree.nodes.filter fun node => node != o.self && !tree.contains node
  let grace := departed.foldl (fun grace node => grace.start node o.graceTicks) o.grace
  { o with graph, tree, grace := tree.nodes.foldl Grace.stop grace }

/-- Count a tick of the grace periods; answers the nodes whose period ended with it. -/
def tick (o : Overlay) : NodeSet × Overlay :=
  let (ended, grace) := o.grace.tick
  (ended, { o with grace })

/-- Whether the overlay has no use: no other node in the tree and none in its grace period. -/
def isIdle (o : Overlay) : Bool :=
  o.tree.size ≤ 1 && o.grace.remaining.isEmpty

end Overlay

/-- What an overlay looked like at some moment. -/
structure OverlayView where
  graph : Graph
  tree : SpanningTree

def Overlay.view (o : Overlay) : OverlayView :=
  { graph := o.graph, tree := o.tree }

/-- The least bandwidth on the way from the root of a tree to a node. The root itself does not
count. -/
def SpanningTree.lowestBandwidth? (t : SpanningTree) (registry : Registry) (node : NodeId) :
    Option Bandwidth := do
  let path ← t.path? t.root node
  match path.tail.filterMap registry.bandwidth? with
  | [] => none
  | first :: rest => some (rest.foldl Bandwidth.min first)

end Meshcast
