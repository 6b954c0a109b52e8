import Meshcast.FlaggedSet
import Meshcast.Groups
import Meshcast.Neighborhood
import Meshcast.Registry
import Meshcast.Topology

/-!
# Meshcast — the information base

All that a node learns from the messages of others: who there is, who its neighbors are, which of
them chose it as a relay, which links and which group memberships were announced.
-/

namespace Meshcast

/-- What a node learned from others. -/
structure InformationBase where
  registry : Registry
  neighbors : Neighborhood
  selectors : Selectors := {}
  topology : Topology := {}
  groups : Groups := {}

/-- What has changed since it was last asked: the neighbors, what the choice of relays depends on,
the links between others, and the group memberships. -/
structure ChangeFlags where
  neighbors : Bool
  relays : Bool
  topology : Bool
  groups : Bool
deriving DecidableEq

namespace InformationBase

/-- A node that has heard nothing yet knows itself alone. -/
def start (address : Address) : InformationBase :=
  let (self, registry) := Registry.empty.intern address
  { registry, neighbors := { self } }

def self (base : InformationBase) : NodeId :=
  base.neighbors.self

/-- The identifier of an address, registered now if it is new. -/
def intern (base : InformationBase) (address : Address) : NodeId × InformationBase :=
  let (id, registry) := base.registry.intern address
  (id, { base with registry })

/-- Whether an address is that of a live symmetric neighbor. -/
def isSymmetricNeighbor (base : InformationBase) (now : Nat) (address : Address) : Bool :=
  (base.registry.lookup? address).any (base.neighbors.isSymmetric now)

def flags (base : InformationBase) : ChangeFlags where
  neighbors := base.neighbors.changed
  relays := base.neighbors.relaysDirty
  topology := base.topology.changed
  groups := base.groups.changed

def lowerFlags (base : InformationBase) : InformationBase :=
  { base with
    neighbors := base.neighbors.takeChanged.2.takeRelaysDirty.2
    topology := base.topology.takeChanged.2
    groups := base.groups.takeChanged.2 }

/-- Drop the dead neighbors and links, and count each kind. -/
def sweep (base : InformationBase) (now : Nat) : (Nat × Nat) × InformationBase :=
  let (entries, neighbors) := base.neighbors.sweep now
  let (links, topology) := base.topology.sweep now
  ((entries, links), { base with neighbors, topology })

end InformationBase

end Meshcast
