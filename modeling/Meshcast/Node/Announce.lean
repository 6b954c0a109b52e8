import Meshcast.Node.Basic

/-!
# Meshcast — the node's own control packets
-/

namespace Meshcast

namespace Node

/-- The greeting a node has to send: every live neighbor under the code of its status. -/
def greeting (node : Node) (now : Nat) : Hello :=
  (node.neighbors.entries now).foldl
    (fun hello (id, neighbor) =>
      match node.registry.address? id with
      | some address => hello.list (.forNeighbor neighbor.status) [address]
      | none => hello)
    {}

def makeHello (node : Node) (now : Nat) : Packet × Node :=
  let (packet, origin) := node.origin.hello node.config.helloValidity (node.greeting now)
  (packet, { node with origin })

/-- Make an announcement packet: the selectors and the groups the node joined. -/
def makeTc (node : Node) : Packet × Node :=
  let ((ansn, members), selectors) := node.selectors.advertise
  let tc : Tc :=
    { ansn
      advertised := .ofList (node.registry.addresses members.toList)
      groups := node.groups.joined node.self }
  let (packet, origin) := node.origin.tc node.config.tcValidity node.config.maxTtl tc
  (packet, { node with selectors, origin })

end Node

end Meshcast
