import Meshcast.Graph.Basic

/-!
# Meshcast — contraction

Contracting a graph to some of its nodes replaces the paths through the others by direct edges. The
weight of an edge is then the number of hops it stands for.
-/

namespace Meshcast

namespace Graph

/-- The direct edges that stand for the paths through a node: from every source of an edge into it
to every other target of an edge out of it. -/
def shortcuts (g : Graph) (node : NodeId) : List Edge :=
  (g.predecessors node).toList.flatMap fun source =>
    (g.targets node).toList.filterMap fun (target, outbound) =>
      if source = target then none
      else
        (g.weight? source node).map fun inbound =>
          { source, target, weight := min (inbound + outbound) maxWeight }

/-- Remove a node; edges that stand for the paths through it take its place where they are shorter
than what is there. -/
def bypass (g : Graph) (node : NodeId) : Graph :=
  ((g.shortcuts node).foldl
    (fun g e => (g.addEdgeIfCheaper e.source e.target e.weight).2) g).removeNode node

/-- The graph on the nodes to keep, in which the weight of an edge is a number of hops of the full
graph. -/
def contract (g : Graph) (keep : NodeSet) : Graph :=
  (g.nodes.toList.filter fun node => !keep.contains node).foldl bypass g.withUnitWeights

end Graph

end Meshcast
