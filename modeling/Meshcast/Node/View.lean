import Meshcast.Node.Basic

/-!
# Meshcast — views of a node

Whoever makes routing decisions gets a view of the routes and the overlays as they were at some
moment. Addresses and bandwidths are looked up in the registry at the time of asking.
-/

namespace Meshcast

/-- The routes and overlays of a node at some moment. -/
structure NodeView where
  self : NodeId
  routes : RoutingTable
  overlays : Std.ExtTreeMap Address OverlayView

def Node.view (node : Node) : NodeView where
  self := node.self
  routes := node.routes
  overlays := node.overlays.map fun _ overlay => overlay.view

namespace NodeView

def groups (view : NodeView) : List Address :=
  view.overlays.keys

def route? (view : NodeView) (registry : Registry) (destination : Address) : Option Route := do
  view.routes[← registry.lookup? destination]?

def nextHop? (view : NodeView) (registry : Registry) (destination : Address) : Option Address := do
  registry.address? (← view.route? registry destination).nextHop

def hops? (view : NodeView) (registry : Registry) (destination : Address) : Option Nat :=
  (view.route? registry destination).map Route.hops

/-- The least bandwidth that a group's messages meet on their way to a destination. -/
def lowestBandwidth? (view : NodeView) (registry : Registry) (group destination : Address) :
    Option Bandwidth := do
  let id ← registry.lookup? destination
  let overlay ← view.overlays[group]?
  overlay.tree.lowestBandwidth? registry id

def depth? (view : NodeView) (registry : Registry) (group destination : Address) : Option Nat := do
  let overlay ← view.overlays[group]?
  overlay.tree.depth? (← registry.lookup? destination)

end NodeView

end Meshcast
