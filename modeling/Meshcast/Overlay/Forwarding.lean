import Meshcast.DataMessage
import Meshcast.Registry
import Meshcast.SpanningTree

/-!
# Meshcast — forwarding along an overlay

The source of a message sends one copy to each neighbor in its tree, with a header that makes the
neighbor responsible for the branch behind it. A relay splits what it is responsible for along its
own tree, which may be another one; what its tree does not lead to it sends directly.
-/

namespace Meshcast

/-- How a relay splits the nodes it is responsible for. -/
structure Partition where
  /-- Neighbors in the tree that are among them, with those behind each. -/
  direct : List (NodeId × NodeSet)
  fallback : NodeSet
deriving DecidableEq

/-- Split `pending` along a tree, as seen from the node `self`. -/
def partition (tree : SpanningTree) (self : NodeId) (pending : NodeSet) : Partition :=
  let hops := (tree.neighbors self).toList.filter pending.contains
  let behind := hops.map fun via => (via, (tree.branch self via).filter pending.contains)
  { direct := behind.map fun (via, branch) => (via, branch.erase via)
    fallback := pending.filter fun node =>
      node != self && !behind.any fun (_, branch) => branch.contains node }

/-- A message and whom to send it to. -/
structure Copy where
  recipient : Address
  message : DataMessage
deriving DecidableEq

namespace Forwarding

/-- The copy for a recipient. Its header has an entry for the recipient alone, and only if the
recipient has anybody to relay to. -/
def copyFor (registry : Registry) (message : DataMessage) (recipient : NodeId)
    (responsible : NodeSet) : Option Copy :=
  (registry.address? recipient).map fun address =>
    let header : ForwardingHeader :=
      if responsible.isEmpty then ∅
      else
        (∅ : ForwardingHeader).insert address (.ofList (registry.addresses responsible.toList))
    { recipient := address, message := { message with header } }

/-- The copies that the source of a message sends: to its neighbors in the tree, to the nodes in
their grace period that are not in the tree, and to itself. -/
def outbound (registry : Registry) (self : NodeId) (tree : SpanningTree) (grace : NodeSet)
    (message : DataMessage) : List Copy :=
  let alone (node : NodeId) := copyFor registry message node ∅
  let graced := grace.filter fun node => node != self && !tree.contains node
  (tree.headers self).filterMap (fun (via, responsible) =>
      copyFor registry message via responsible)
    ++ graced.toList.filterMap alone ++ (alone self).toList

/-- The copies that a relay sends on. Nodes it hears of for the first time are registered. -/
def relay (registry : Registry) (self : NodeId) (tree : SpanningTree) (message : DataMessage) :
    List Copy × Registry :=
  match registry.address? self with
  | none => ([], registry)
  | some address =>
    let (ids, registry) := registry.internAll (message.responsibilities address).toList
    let pending : NodeSet := .ofList (ids.filter (· != self))
    let split := partition tree self pending
    let direct := split.direct.filterMap fun (via, responsible) =>
      copyFor registry message via responsible
    let fallback := split.fallback.toList.filterMap fun node => copyFor registry message node ∅
    (direct ++ fallback, registry)

end Forwarding

end Meshcast
