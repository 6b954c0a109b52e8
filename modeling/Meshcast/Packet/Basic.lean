import Meshcast.Packet.Hello
import Meshcast.Packet.Tc
import Meshcast.ValidityTime

/-!
# Meshcast — control packets

A control packet is a header and one message:

    [type][validity][originator:4][ttl][hop count][sequence number:2][message]

The type octet is looked at before anything else, then the rest of the header has to be there as a
whole.
-/

namespace Meshcast

/-- The fields every control packet has. -/
structure Header where
  validity : ValidityTime
  originator : Address
  ttl : UInt8
  hopCount : UInt8
  seq : SeqNum
deriving DecidableEq

/-- The two kinds of control message. -/
inductive MessageType
  | hello | tc
deriving DecidableEq

namespace MessageType

def toOctet : MessageType → UInt8
  | .hello => 1
  | .tc => 2

def ofOctet (octet : UInt8) : Except DecodeError MessageType :=
  if octet = 1 then .ok .hello
  else if octet = 2 then .ok .tc
  else .error (.unknownMessageType octet)

end MessageType

/-- The message a packet carries. Greetings stay among neighbors, announcements are flooded. -/
inductive Body
  | hello (hello : Hello)
  | tc (tc : Tc)
deriving DecidableEq

namespace Body

def type : Body → MessageType
  | .hello _ => .hello
  | .tc _ => .tc

def encode : Body → Except EncodeError Bytes
  | .hello message => message.encode
  | .tc message => message.encode

def decode : MessageType → Decoder Body
  | .hello => Body.hello <$> Hello.decode
  | .tc => Body.tc <$> Tc.decode

end Body

/-- A control packet. -/
structure Packet where
  header : Header
  body : Body
deriving DecidableEq

namespace Header

/-- Write the header of a message of the given type. -/
def encode (header : Header) (type : MessageType) : Bytes :=
  type.toOctet :: header.validity.octet :: header.originator.octets
    ++ header.ttl :: header.hopCount :: bigEndian 2 header.seq.value.toNat

def decode : Decoder Header := do
  Decoder.need 9
  let validity ← Decoder.octet
  let originator ← Decoder.address
  let ttl ← Decoder.octet
  let hopCount ← Decoder.octet
  let seq ← Decoder.word16
  pure { validity := ⟨validity⟩, originator, ttl, hopCount, seq := ⟨seq⟩ }

end Header

namespace Packet

def encode (packet : Packet) : Except EncodeError Bytes := do
  let body ← packet.body.encode
  pure (packet.header.encode packet.body.type ++ body)

/-- Read a packet from the front of a byte string. -/
def decoder : Decoder Packet := do
  let type ← MessageType.ofOctet (← Decoder.octet)
  let header ← Header.decode
  let body ← Body.decode type
  pure { header, body }

/-- Read a packet that is the whole of a byte string. -/
def decode (bytes : Bytes) : Except DecodeError Packet :=
  decoder.whole bytes

/-- The copy to send on, if the packet may travel further: it has one hop less to go, and one more
behind it until the count is full. -/
def forwarded? (packet : Packet) : Option Packet :=
  if packet.header.ttl ≤ 1 then none
  else
    let hopCount := if packet.header.hopCount = 255 then 255 else packet.header.hopCount + 1
    some { packet with header := { packet.header with ttl := packet.header.ttl - 1, hopCount } }

end Packet

end Meshcast
