import Meshcast.Node.Basic

/-!
# Meshcast — multicast

A node sends payloads to groups, relays those of others and hands payloads to the layer above it:
its own ones, which come back to it as copies, and those for groups that it joined. The layer above
may not be able to read a payload, or may reject it; the message is relayed all the same.
-/

namespace Meshcast

/-- What the layer above a node does with payloads. -/
structure UpperLayer (α : Type) where
  read? : Bytes → Option α
  /-- Whether to take what was read. -/
  accepts : α → Bool := fun _ => true

def UpperLayer.take? {α : Type} (upper : UpperLayer α) (payload : Bytes) : Option α :=
  (upper.read? payload).filter upper.accepts

/-- An upper layer of text that rejects what starts with an exclamation mark. -/
def UpperLayer.text : UpperLayer String where
  read? bytes := String.fromUTF8? ⟨bytes.toArray⟩
  accepts text := text.front? ≠ some '!'

namespace Node

/-- Join a group; says whether the node was outside. -/
def join (node : Node) (group : Address) : Bool × Node :=
  let (changed, groups) := node.groups.register node.self group
  (changed, { node with groups })

/-- Leave a group; says whether the node was inside. -/
def leave (node : Node) (group : Address) : Bool × Node :=
  let (changed, groups) := node.groups.unregister node.self group
  (changed, { node with groups })

/-- Send a payload to a group: the copies for the neighbors in the overlay, for members that left
recently and for the node itself. -/
def send (node : Node) (group : Address) (payload : Bytes) : List Copy × Node :=
  let message : DataMessage :=
    { group, source := node.address, seq := node.nextDataSeq, payload }
  let copies :=
    Forwarding.outbound node.registry node.self (node.treeOf group) (node.graceOf group) message
  (copies, { node with nextDataSeq := node.nextDataSeq + 1 })

def isForUpperLayer (node : Node) (message : DataMessage) : Bool :=
  message.source = node.address || node.groups.isMember node.self message.group

/-- What the layer above takes out of a message, if the message is for it. -/
def delivery? {α : Type} (node : Node) (upper : UpperLayer α) (message : DataMessage) : Option α :=
  if node.isForUpperLayer message then upper.take? message.payload else none

def relay (node : Node) (message : DataMessage) : List Copy × Node :=
  let (copies, registry) :=
    Forwarding.relay node.registry node.self (node.treeOf message.group) message
  (copies, { node with registry })

end Node

end Meshcast
