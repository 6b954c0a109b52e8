import Meshcast.Expiring
import Meshcast.Link
import Meshcast.NodeId

/-!
# Meshcast — the neighborhood of a node

A node knows its neighbors and, from their greetings, the neighbors of these. The arcs from
symmetric neighbors to their own neighbors are published whenever the set of live neighbors or an
entry of it changed; two flags then tell that routes and relays are to be computed afresh.
-/

namespace Meshcast

/-- A neighbor and the nodes it reports as its own symmetric neighbors. -/
structure Neighbor where
  status : NeighborType
  twoHop : NodeSet := ∅
deriving DecidableEq

/-- Whether a neighbor is heard in both directions. -/
def Neighbor.isSymmetric (n : Neighbor) : Bool :=
  n.status.isSymmetric

/-- The neighbors of the node `self`. -/
structure Neighborhood where
  self : NodeId
  table : ExpiringTable NodeId Neighbor := {}
  /-- The arcs from symmetric neighbors to their neighbors, as last published. -/
  twoHopArcs : ArcSet := ∅
  /-- Something that routes depend on changed. -/
  changed : Bool := false
  /-- Something that the choice of relays depends on changed. -/
  relaysDirty : Bool := false

namespace Neighborhood

/-- The arcs that a neighbor's report contributes: none back to `self`, none to itself. -/
def arcsOf (self id : NodeId) (neighbor : Neighbor) : List Arc :=
  if neighbor.isSymmetric then
    (neighbor.twoHop.toList.filter fun target => target != self && target != id).map (⟨id, ·⟩)
  else []

def arcsOfAll (self : NodeId) (neighbors : Std.ExtTreeMap NodeId Neighbor) : ArcSet :=
  .ofList (neighbors.toList.flatMap fun (id, neighbor) => arcsOf self id neighbor)

/-- Take over the outcome of a transaction. If there is something to look at, publish the arcs and
raise both flags. -/
def commit (n : Neighborhood) (tx : Transaction NodeId Neighbor) : Neighborhood :=
  match tx.report with
  | none => { n with table := tx.table }
  | some live =>
    { n with
      table := tx.table
      twoHopArcs := arcsOfAll n.self live
      changed := true
      relaysDirty := true }

def get? (n : Neighborhood) (now : Nat) (id : NodeId) : Option Neighbor :=
  n.table.get? now id

def isSymmetric (n : Neighborhood) (now : Nat) (id : NodeId) : Bool :=
  (n.get? now id).any Neighbor.isSymmetric

def entries (n : Neighborhood) (now : Nat) : List (NodeId × Neighbor) :=
  (n.table.live now).toList

def members (n : Neighborhood) (now : Nat) : NodeSet :=
  .ofList (n.table.keys now)

/-- The live symmetric neighbors, relays included. -/
def symmetric (n : Neighborhood) (now : Nat) : NodeSet :=
  .ofList (((n.entries now).filter fun (_, neighbor) => neighbor.isSymmetric).map Prod.fst)

/-- The ends of published arcs that are no symmetric neighbors themselves. -/
def twoHopNeighbors (n : Neighborhood) (now : Nat) : NodeSet :=
  let symmetric := n.symmetric now
  .ofList ((n.twoHopArcs.toList.map Arc.target).filter fun target => !symmetric.contains target)

/-- Put an entry. A live entry that differs from it counts as a change. -/
def put (n : Neighborhood) (now : Nat) (id : NodeId) (neighbor : Neighbor) (lifetime : Nat) :
    Put × Neighborhood :=
  let differs := (n.get? now id).any (· ≠ neighbor)
  let (put, tx) := (n.table.transaction now).insert id neighbor lifetime
  (put, n.commit (if differs then tx.markChanged else tx))

def remove (n : Neighborhood) (now : Nat) (id : NodeId) : Option Neighbor × Neighborhood :=
  let (neighbor, tx) := (n.table.transaction now).remove id
  (neighbor, n.commit tx)

def sweep (n : Neighborhood) (now : Nat) : Nat × Neighborhood :=
  let (dropped, tx) := (n.table.transaction now).sweep
  (dropped, n.commit tx)

/-- Publish the arcs and raise the flags without any change. -/
def publish (n : Neighborhood) (now : Nat) : Neighborhood :=
  n.commit (n.table.transaction now).markChanged

/-- The status a neighbor is to have under a choice of relays. -/
def statusUnder (relays : NodeSet) (id : NodeId) (neighbor : Neighbor) : NeighborType :=
  if !neighbor.isSymmetric then neighbor.status
  else if relays.contains id then .relay
  else .symmetric

/-- Have exactly the chosen relays among the live symmetric neighbors marked as such; says whether
any mark changed. The arcs stay as they are, and the relays need no new choice. -/
def markRelays (n : Neighborhood) (now : Nat) (relays : NodeSet) : Bool × Neighborhood :=
  let marked := (n.entries now).any fun (id, neighbor) =>
    neighbor.status ≠ statusUnder relays id neighbor
  let slots := n.table.slots.map fun id slot =>
    if slot.isLive now then
      { slot with value := { slot.value with status := statusUnder relays id slot.value } }
    else slot
  (marked, { n with table := ⟨slots⟩, changed := n.changed || marked })

/-- Lower the first flag, and say whether it was raised. -/
def takeChanged (n : Neighborhood) : Bool × Neighborhood :=
  (n.changed, { n with changed := false })

/-- Lower the second flag, and say whether it was raised. -/
def takeRelaysDirty (n : Neighborhood) : Bool × Neighborhood :=
  (n.relaysDirty, { n with relaysDirty := false })

end Neighborhood

end Meshcast
