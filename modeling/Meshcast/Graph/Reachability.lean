import Meshcast.Graph.Basic

/-!
# Meshcast — reachability

What can be reached from a node is explored breadth first: nodes are visited in the order in which
they are found, and each visit finds the nodes next to the visited one that are not found yet.
-/

namespace Meshcast

namespace Graph

/-- Visit the nodes of a queue, `fuel` of them or until nobody is left, and add what is found to what
is reached. -/
def explore (next : NodeId → NodeSet) :
    (fuel : Nat) → (queue : List NodeId) → (reached : NodeSet) → NodeSet
  | 0, _, reached => reached
  | _ + 1, [], reached => reached
  | fuel + 1, node :: queue, reached =>
    let found := (next node).toList.filter fun n => !reached.contains n
    explore next fuel (queue ++ found) (reached.insertMany found)

/-- What can be reached from a node of the graph by steps of `next` inside the graph. Every node is
found once, so there are no more visits than nodes. -/
def closure (g : Graph) (next : NodeId → NodeSet) (root : NodeId) : NodeSet :=
  explore next g.nodeCount [root] (.ofList [root])

/-- The nodes that can be reached along directed edges; none from a node outside the graph. -/
def reachableFrom (g : Graph) (root : NodeId) : NodeSet :=
  if g.contains root then g.closure g.successors root else ∅

/-- Whether all nodes hang together if edges may be taken in either direction. -/
def isWeaklyConnected (g : Graph) : Bool :=
  match g.nodes.min? with
  | none => true
  | some start => (g.closure g.neighbors start).size = g.nodeCount

end Graph

end Meshcast
