import Std.Data.ExtTreeMap
import Meshcast.Varint

/-!
# Meshcast — data messages

A data message carries a payload to the members of a multicast group. Its header tells recipients
which further members they have to pass the message on to.

    group:4 source:4 seq entries {recipient:4 members {member:4}} length payload

The sequence number, the counts and the payload length are variable-length integers.
-/

namespace Meshcast

/-- For each recipient the nodes it has to relay to. -/
abbrev ForwardingHeader := Std.ExtTreeMap Address AddressSet

/-- A payload on its way to a multicast group. -/
structure DataMessage where
  group : Address
  source : Address
  seq : UInt32
  header : ForwardingHeader := ∅
  payload : Bytes
deriving DecidableEq

namespace DataMessage

def responsibilities (message : DataMessage) (recipient : Address) : AddressSet :=
  message.header[recipient]?.getD ∅

def encodeMembers (members : AddressSet) : Bytes :=
  Varint.encode members.size ++ members.toList.flatMap Address.octets

def encodeEntry (entry : Address × AddressSet) : Bytes :=
  entry.1.octets ++ encodeMembers entry.2

def encode (message : DataMessage) : Bytes :=
  message.group.octets ++ message.source.octets ++ Varint.encode message.seq.toNat
    ++ Varint.encode message.header.size ++ message.header.toList.flatMap encodeEntry
    ++ Varint.encode message.payload.length ++ message.payload

def decodeAddress : Decoder Address :=
  Address.ofOctets <$> Varint.take 4

def decodeEntry : Decoder (Address × AddressSet) := do
  let recipient ← decodeAddress
  let members ← Decoder.repeated decodeAddress (← Varint.decode64)
  pure (recipient, .ofList members)

/-- Read a data message from the front of a byte string. Of two entries for one recipient the later
one counts. -/
def decoder : Decoder DataMessage := do
  let group ← decodeAddress
  let source ← decodeAddress
  let seq ← Varint.decode32
  let entries ← Decoder.repeated decodeEntry (← Varint.decode64)
  let payload ← Varint.take (← Varint.decode64)
  pure { group, source, seq := UInt32.ofNat seq, header := .ofList entries, payload }

/-- Read a data message that is the whole of a byte string. -/
def decode (bytes : Bytes) : Except DecodeError DataMessage :=
  decoder.whole bytes

end DataMessage

end Meshcast
