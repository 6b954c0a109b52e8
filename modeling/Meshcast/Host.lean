import Meshcast.Node.Announce
import Meshcast.Node.Control
import Meshcast.Node.Maintenance
import Meshcast.Node.Multicast

/-!
# Meshcast — a host

A host is a node with a layer of text above it, which keeps what it is given until it is read.
-/

namespace Meshcast

/-- A node and the texts that were delivered to it and not read yet. -/
structure Host where
  node : Node
  inbox : List String := []

namespace Host

def start (address : Address) (config : Config) : Host :=
  { node := .start address config }

def onNode {α : Type} (host : Host) (f : Node → α × Node) : α × Host :=
  let (result, node) := f host.node
  (result, { host with node })

/-- Handle a data message: deliver its payload if it is for this host, and relay it. -/
def receiveMessage (host : Host) (message : DataMessage) : List Copy × Host :=
  let delivered := (host.node.delivery? .text message).toList
  let (copies, node) := host.node.relay message
  (copies, { node, inbox := host.inbox ++ delivered })

/-- Handle the bytes of a data message. Bytes that are no message are dropped. -/
def receiveData (host : Host) (bytes : Bytes) : List Copy × Host :=
  match DataMessage.decode bytes with
  | .ok message => host.receiveMessage message
  | .error _ => ([], host)

def readInbox (host : Host) : List String × Host :=
  (host.inbox, { host with inbox := [] })

/-- A round of maintenance; says how many entries were dropped and whether anything was computed
afresh. -/
def maintain (host : Host) (now : Nat) : (Nat × Bool) × Host :=
  let (dropped, node) := host.node.sweep now
  let (recomputed, node) := node.recompute now
  ((dropped, recomputed), { host with node := node.tickGrace })

end Host

end Meshcast
