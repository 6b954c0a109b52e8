import Meshcast.LinkSensing
import Meshcast.Node.Basic
import Meshcast.TopologyDiscovery

/-!
# Meshcast — handling control packets

Greetings and announcements are handled once per originator and sequence number. An announcement is
sent on once as well, and only when it comes from a neighbor that chose the node as a relay.
-/

namespace Meshcast

namespace Node

/-- Have the information base changed by a function. -/
def withBase (node : Node) (base : InformationBase) : Node :=
  { node with toInformationBase := base }

def markHandled (node : Node) (now : Nat) (id : MessageId) (retransmitted : Bool) : Node :=
  { node with duplicates := node.duplicates.mark now id retransmitted }

/-- Whether the node is to send on what comes from a neighbor: the neighbor is symmetric and chose
the node as a relay. -/
def relaysFor (node : Node) (now : Nat) (neighbor : Address) : Bool :=
  (node.registry.lookup? neighbor).any fun id =>
    node.selectors.members.contains id && node.neighbors.isSymmetric now id

/-- Send a packet on unless that happened already. Whether or not it is sent on, it is marked as
handled. -/
def forward (node : Node) (now : Nat) (id : MessageId) (packet : Packet) (neighbor : Address) :
    Option Packet × Node :=
  if node.duplicates.retransmitted now id then (none, node)
  else
    let forwarded := if node.relaysFor now neighbor then packet.forwarded? else none
    (forwarded, node.markHandled now id forwarded.isSome)

/-- Handle a greeting that comes in for the first time. -/
def handleHello (node : Node) (now : Nat) (id : MessageId) (header : Header) (hello : Hello)
    (neighbor : Address) : Node :=
  let node := node.markHandled now id false
  node.withBase (node.applyHello now neighbor hello header.validity).2

/-- Handle a control packet that comes in from a neighbor; answers the packet to send on. Packets of
the node's own are dropped, and so is everything that is said to come from the node itself. -/
def receivePacket (node : Node) (now : Nat) (packet : Packet) (neighbor : Address) :
    Option Packet × Node :=
  if packet.header.originator = node.address || neighbor = node.address then (none, node)
  else
    let (originator, registry) := node.registry.intern packet.header.originator
    let node := { node with registry }
    let id : MessageId := ⟨originator, packet.header.seq⟩
    let duplicate := node.duplicates.seen now id
    match packet.body with
    | .hello hello =>
      if duplicate then (none, node)
      else (none, node.handleHello now id packet.header hello neighbor)
    | .tc tc =>
      let node :=
        if duplicate then node
        else
          node.withBase
            (node.applyTc now packet.header.originator neighbor tc packet.header.validity).2
      node.forward now id packet neighbor

/-- Handle the bytes of a control packet. Bytes that are no packet are dropped. -/
def receiveControl (node : Node) (now : Nat) (bytes : Bytes) (neighbor : Address) :
    Option Packet × Node :=
  match Packet.decode bytes with
  | .ok packet => node.receivePacket now packet neighbor
  | .error _ => (none, node)

/-- Whether a message was handled and whether it was sent on, if its originator is known at all. -/
def marksOf? (node : Node) (now : Nat) (originator : Address) (seq : SeqNum) :
    Option (Bool × Bool) :=
  (node.registry.lookup? originator).map fun id =>
    (node.duplicates.seen now ⟨id, seq⟩, node.duplicates.retransmitted now ⟨id, seq⟩)

end Node

end Meshcast
