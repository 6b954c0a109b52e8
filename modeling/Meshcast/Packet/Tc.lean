import Meshcast.Wire

/-!
# Meshcast — topology announcements

A topology announcement tells the whole network which nodes chose its originator as their relay and
which multicast groups the originator joined.
-/

namespace Meshcast

/-- A topology announcement. -/
structure Tc where
  /-- Moves forward each time the advertised set changes. -/
  ansn : SeqNum := ⟨0⟩
  /-- The neighbors that have the originator relay for them. -/
  advertised : AddressSet := ∅
  groups : AddressSet := ∅
deriving DecidableEq

namespace Tc

def encode (tc : Tc) : Except EncodeError Bytes := do
  let advertised ← encodeAddresses .advertisedNeighbors tc.advertised
  let groups ← encodeAddresses .multicastGroups tc.groups
  pure (bigEndian 2 tc.ansn.value.toNat ++ advertised ++ groups)

def decode : Decoder Tc := do
  let ansn ← Decoder.word16
  let advertised ← Decoder.addresses
  let groups ← Decoder.addresses
  pure { ansn := ⟨ansn⟩, advertised := .ofList advertised, groups := .ofList groups }

end Tc

end Meshcast
