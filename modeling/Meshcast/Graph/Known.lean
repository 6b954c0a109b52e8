import Meshcast.Graph.Reachability

/-!
# Meshcast — the graph of what a node knows
-/

namespace Meshcast

/-- The graph of all that the node `self` can reach: its links to symmetric neighbors, their links
to two-hop neighbors and the advertised links. Links count in both directions and have unit
weight. -/
def knownGraph (self : NodeId) (symmetric : NodeSet) (twoHopArcs : ArcSet) (topology : List Arc) :
    Graph :=
  let link (g : Graph) (arc : Arc) : Graph := g.connect arc.source arc.target unitWeight
  let near := symmetric.toList.map (⟨self, ·⟩)
  let far := twoHopArcs.toList.filter fun arc => symmetric.contains arc.source
  let g := (near ++ far ++ topology).foldl link (Graph.singleton self)
  g.restrictedTo (g.reachableFrom self)

end Meshcast
