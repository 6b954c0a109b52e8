import Meshcast.Error
import Meshcast.SpanningTree

/-!
# Meshcast — minimum spanning trees

The tree grows from the root by the lightest edge that leads out of it; edges may be taken in either
direction, at the weight of the lighter one. Of several nodes equally near, the one with the lowest
identifier is taken.
-/

namespace Meshcast

namespace Graph

/-- How near a node outside the tree is known to be, and over which node of the tree. -/
structure Nearness where
  weight : Weight
  parent : Option NodeId
deriving DecidableEq

abbrev Frontier := Std.ExtTreeMap NodeId Nearness

/-- Before the first step the root is at distance zero and nothing is known of the others. -/
def startingFrontier (g : Graph) (root : NodeId) : Frontier :=
  let unknown : Frontier :=
    g.nodes.foldl (fun frontier node => frontier.insert node ⟨maxWeight, none⟩) ∅
  unknown.insert root ⟨0, none⟩

def nearest? (frontier : Frontier) : Option (NodeId × Nearness) :=
  frontier.toList.foldl (fun best entry =>
    match best with
    | none => some entry
    | some b => if entry.2.weight < b.2.weight then some entry else some b) none

/-- What is known of a node, once it is accounted for its edge to a node of the tree. -/
def nearerOver (g : Graph) (node next : NodeId) (known : Nearness) : Nearness :=
  match g.undirectedWeight? node next with
  | some weight => if weight < known.weight then ⟨weight, some node⟩ else known
  | none => known

/-- Account for the edges between a node that joined the tree and its neighbors on the frontier. -/
def relax (g : Graph) (node : NodeId) (frontier : Frontier) : Frontier :=
  (g.neighbors node).foldl (fun frontier next => frontier.modify next (g.nearerOver node next))
    frontier

/-- Have the nearest nodes join the tree, `fuel` of them or until the frontier is empty. A nearest
node of which nothing is known means that the tree cannot grow on. -/
def growTree (g : Graph) :
    (fuel : Nat) → SpanningTree → Frontier → Except SpanningError SpanningTree
  | 0, tree, _ => .ok tree
  | fuel + 1, tree, frontier =>
    match nearest? frontier with
    | none => .ok tree
    | some (node, known) =>
      if known.weight = maxWeight then
        .error (.disconnected (g.nodeCount - frontier.size) g.nodeCount)
      else
        let tree :=
          match known.parent with
          | some parent => tree.attach node parent known.weight
          | none => tree
        growTree g fuel tree (g.relax node (frontier.erase node))

/-- A minimum spanning tree with the given root. Each step takes a node off the frontier, so there
are as many steps as nodes. -/
def minimumSpanningTree (g : Graph) (root : NodeId) : Except SpanningError SpanningTree :=
  if g.contains root then
    g.growTree g.nodeCount (.singleton root) (g.startingFrontier root)
  else .error .missingRoot

end Graph

end Meshcast
