import Meshcast.Packet.Basic

/-!
# Meshcast — originating control packets

A node numbers the control packets it makes, one after the other over both kinds.
-/

namespace Meshcast

/-- Where a node's own control packets come from. -/
structure Origin where
  address : Address
  nextSeq : SeqNum := ⟨0⟩
deriving DecidableEq

namespace Origin

def takeSeq (origin : Origin) : SeqNum × Origin :=
  (origin.nextSeq, { origin with nextSeq := origin.nextSeq.next })

/-- Take `n` sequence numbers at once and forget them. -/
def skip (origin : Origin) (n : Nat) : Origin :=
  { origin with nextSeq := ⟨origin.nextSeq.value + UInt16.ofNat n⟩ }

def packet (origin : Origin) (validity : ValidityTime) (ttl : UInt8) (body : Body) :
    Packet × Origin :=
  let (seq, origin) := origin.takeSeq
  let header := { validity, originator := origin.address, ttl, hopCount := 0, seq }
  ({ header, body }, origin)

/-- Make a greeting packet; it travels one hop. -/
def hello (origin : Origin) (validity : ValidityTime) (hello : Hello) : Packet × Origin :=
  origin.packet validity 1 (.hello hello)

def tc (origin : Origin) (validity : ValidityTime) (ttl : UInt8) (tc : Tc) : Packet × Origin :=
  origin.packet validity ttl (.tc tc)

end Origin

end Meshcast
