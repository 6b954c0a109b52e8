import Meshcast.Graph.Contraction
import Meshcast.Groups

/-!
# Meshcast — the graph of a group
-/

namespace Meshcast

/-- A graph, contracted to the members of a group and the node `self`. -/
def groupGraph (graph : Graph) (groups : Groups) (self : NodeId) (group : Address) : Graph :=
  graph.contract ((groups.members group).insert self)

end Meshcast
