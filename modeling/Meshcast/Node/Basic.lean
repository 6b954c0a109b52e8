import Meshcast.Config
import Meshcast.Duplicates
import Meshcast.InformationBase
import Meshcast.Overlay.Forwarding
import Meshcast.Overlay.Basic
import Meshcast.Packet.Origin
import Meshcast.Routing

/-!
# Meshcast — a node

A node holds what it learned from others and what it derives from that: its relays, its routes, the
graph of what it knows and the overlays of the multicast groups. It does nothing by itself: messages
and readings of the clock come in as arguments, what is to be sent comes out as a result.
-/

namespace Meshcast

/-- A routing node with its multicast overlays. -/
structure Node extends InformationBase where
  config : Config
  origin : Origin
  duplicates : Duplicates
  /-- The neighbors chosen to relay the node's floods. -/
  relays : FlaggedSet := {}
  routes : RoutingTable := ∅
  graph : Graph
  overlays : Std.ExtTreeMap Address Overlay := ∅
  /-- The number of the next payload sent to a group; it wraps. -/
  nextDataSeq : UInt32 := 0

namespace Node

def start (address : Address) (config : Config) : Node :=
  let base := InformationBase.start address
  { base with
    config
    origin := { address }
    duplicates := { holdTime := config.duplicateHoldTime }
    graph := .singleton base.self }

def address (node : Node) : Address :=
  node.origin.address

/-- The tree along which a group's messages travel; without an overlay it is the node alone. -/
def treeOf (node : Node) (group : Address) : SpanningTree :=
  match node.overlays[group]? with
  | some overlay => overlay.tree
  | none => .singleton node.self

def graceOf (node : Node) (group : Address) : NodeSet :=
  match node.overlays[group]? with
  | some overlay => overlay.grace.nodes
  | none => ∅

/-- The next hop towards a destination and the number of hops. -/
def routeTo? (node : Node) (destination : Address) : Option (Address × Nat) := do
  let route ← node.routes[← node.registry.lookup? destination]?
  let nextHop ← node.registry.address? route.nextHop
  pure (nextHop, route.hops)

/-- Register the participants that the transport knows of; says how many are new. -/
def registerAll (node : Node) (addresses : List Address) : Nat × Node :=
  let (_, registry) := node.registry.internAll addresses
  (registry.size - node.registry.size, { node with registry })

def setBandwidth (node : Node) (address : Address) (bandwidth : Bandwidth) : Node :=
  let (id, registry) := node.registry.intern address
  { node with registry := registry.setBandwidth id bandwidth }

end Node

end Meshcast
