import Std.Data.ExtTreeMap
import Meshcast.NodeId

/-!
# Meshcast — routes

A routing table maps a destination to the neighbor that leads to it and the number of hops. Routes
are found breadth first: symmetric neighbors are one hop away, their neighbors two, and from there
the advertised topology adds one hop at a time. A layer only continues routes of the layer before,
and whoever is reached first stays.
-/

namespace Meshcast

/-- The way to a destination. -/
structure Route where
  nextHop : NodeId
  hops : Nat
deriving DecidableEq

abbrev RoutingTable := Std.ExtTreeMap NodeId Route

namespace Routing

/-- The longest route. -/
def maxHops : Nat := 255

def toNeighbors (symmetric : NodeSet) : RoutingTable :=
  symmetric.foldl (fun routes node => routes.insert node ⟨node, 1⟩) ∅

/-- Add the route along an arc from a symmetric neighbor. -/
def addTwoHop (self : NodeId) (symmetric : NodeSet) (routes : RoutingTable) (arc : Arc) :
    RoutingTable :=
  if arc.target != self && symmetric.contains arc.source then
    routes.insertIfNew arc.target ⟨arc.source, 2⟩
  else routes

/-- Continue a route of `hops` hops along a topology arc. -/
def addArc (self : NodeId) (hops : Nat) (routes : RoutingTable) (arc : Arc) : RoutingTable :=
  if arc.target = self || routes.contains arc.target then routes
  else
    match routes[arc.source]? with
    | some via =>
      if via.hops = hops then routes.insert arc.target ⟨via.nextHop, hops + 1⟩ else routes
    | none => routes

/-- Continue the routes of `hops` hops and on, `layers` times or until a layer is empty. -/
def addLayers (self : NodeId) (topology : List Arc) :
    (layers hops : Nat) → RoutingTable → RoutingTable
  | 0, _, routes => routes
  | layers + 1, hops, routes =>
    if routes.values.any (·.hops = hops) then
      addLayers self topology layers (hops + 1) (topology.foldl (addArc self hops) routes)
    else routes

end Routing

open Routing in
def computeRoutes (self : NodeId) (symmetric : NodeSet) (twoHopArcs : ArcSet)
    (topology : List Arc) : RoutingTable :=
  let routes := twoHopArcs.toList.foldl (addTwoHop self symmetric) (toNeighbors symmetric)
  addLayers self topology (maxHops - 1) 1 routes

end Meshcast
