import Meshcast.Graph.Known
import Meshcast.Node.Basic
import Meshcast.Overlay.GroupGraph
import Meshcast.RelaySelection

/-!
# Meshcast — maintenance

From time to time a node drops what has expired, computes afresh what it derives from its tables,
and counts a tick of the grace periods. What is derived is computed only if a table says that it
changed.
-/

namespace Meshcast

namespace Node

/-- The nodes that anything but a group membership is known of, and the node itself. -/
def knownNodes (node : Node) (now : Nat) : NodeSet :=
  (node.neighbors.members now ∪ node.neighbors.twoHopNeighbors now ∪ node.topology.nodes now).insert
    node.self

/-- Drop what has expired and count it: marks, neighbors, links, selectors that are no symmetric
neighbors (these are not counted), and memberships of nodes of which nothing else is known. -/
def sweep (node : Node) (now : Nat) : Nat × Node :=
  let (marks, duplicates) := node.duplicates.sweep now
  let ((entries, links), base) := node.toInformationBase.sweep now
  let (_, selectors) := base.selectors.update (prune · (base.neighbors.symmetric now))
  let node := { node with toInformationBase := { base with selectors }, duplicates }
  let (rows, groups) := node.groups.retain (node.knownNodes now)
  (marks + entries + links + rows, { node with groups })

/-- Choose the relays afresh, if that is due. -/
def updateRelays (node : Node) (now : Nat) : Node :=
  let (due, neighbors) := node.neighbors.takeRelaysDirty
  if due then
    let relays := selectRelays node.self (neighbors.symmetric now) neighbors.twoHopArcs
    { node with
      neighbors := (neighbors.markRelays now relays).2
      relays := (node.relays.replace relays).2 }
  else node

def updateRoutes (node : Node) (now : Nat) : Node :=
  let symmetric := node.neighbors.symmetric now
  let arcs := node.neighbors.twoHopArcs
  let topology := node.topology.arcs now
  { node with
    routes := computeRoutes node.self symmetric arcs topology
    graph := knownGraph node.self symmetric arcs topology }

/-- The overlay of a group, brought up to date or newly made. -/
def updatedOverlay (node : Node) (group : Address) : Overlay :=
  let overlay :=
    node.overlays[group]?.getD
      { group, self := node.self, graceTicks := node.config.graceTicks }
  overlay.update (groupGraph node.graph node.groups node.self group)

/-- Bring the overlays of all groups up to date. One without use goes, unless the node itself is a
member of the group. -/
def updateOverlays (node : Node) : Node :=
  let groups := (node.groups.all.insertMany node.overlays.keys).toList
  let kept := groups.filterMap fun group =>
    let overlay := node.updatedOverlay group
    if overlay.isIdle && !node.groups.isMember node.self group then none else some (group, overlay)
  { node with overlays := .ofList kept }

/-- Compute afresh what is due; says whether anything but the relays was. -/
def recompute (node : Node) (now : Nat) : Bool × Node :=
  let node := node.updateRelays now
  let flags := node.flags
  let node := { node with toInformationBase := node.lowerFlags }
  if flags.neighbors || flags.topology then (true, (node.updateRoutes now).updateOverlays)
  else if flags.groups then (true, node.updateOverlays)
  else (false, node)

/-- Count a tick of the grace periods of all overlays. -/
def tickGrace (node : Node) : Node :=
  { node with overlays := node.overlays.map fun _ overlay => overlay.tick.2 }

end Node

end Meshcast
