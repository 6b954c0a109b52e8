import Meshcast.Address
import Meshcast.Error
import Meshcast.SeqNum

/-!
# Meshcast — reading and writing bytes

A decoder consumes the front of a byte string or says why it cannot. Numbers are in network order;
a list of addresses follows a count of one octet. `Decoder.whole` runs a decoder over a byte string
that it has to use up.
-/

namespace Meshcast

abbrev Decoder := StateT Bytes (Except DecodeError)

namespace Decoder

/-- Consume `needed` bytes; `short` names the error if only some are there. -/
def takeOr (short : (needed remaining : Nat) → DecodeError) (needed : Nat) : Decoder Bytes :=
  fun input =>
    let front := input.take needed
    if front.length < needed then .error (short needed front.length)
    else .ok (front, input.drop needed)

def take (needed : Nat) : Decoder Bytes :=
  takeOr .truncated needed

/-- Insist that `needed` bytes are there, without consuming them. -/
def need (needed : Nat) : Decoder Unit := fun input =>
  let front := input.take needed
  if front.length < needed then .error (.truncated needed front.length) else .ok ((), input)

def octet : Decoder UInt8
  | [] => .error (.truncated 1 0)
  | b :: rest => .ok (b, rest)

def word16 : Decoder UInt16 :=
  (fun bytes => UInt16.ofNat (ofBigEndian bytes)) <$> take 2

def address : Decoder Address :=
  Address.ofOctets <$> take 4

/-- The addresses in a string of whole addresses. -/
def addressesOf : Bytes → List Address
  | a :: b :: c :: d :: rest => Address.ofOctets [a, b, c, d] :: addressesOf rest
  | _ => []

/-- Consume a counted list of addresses. The bytes of the whole list are asked for at once. -/
def addresses : Decoder (List Address) := do
  let count ← octet
  addressesOf <$> take (count.toNat * 4)

def repeated {α : Type} (d : Decoder α) : Nat → Decoder (List α)
  | 0 => pure []
  | n + 1 => do
    let a ← d
    let rest ← repeated d n
    pure (a :: rest)

/-- Run a decoder over a byte string that it has to use up. -/
def whole {α : Type} (d : Decoder α) (input : Bytes) : Except DecodeError α := do
  let (a, rest) ← d input
  if rest.isEmpty then pure a else throw (.trailingBytes rest.length)

end Decoder

def encodeCount (list : CountedList) (length : Nat) : Except EncodeError Bytes :=
  if length < 256 then .ok [UInt8.ofNat length] else .error (.tooManyEntries list length)

/-- Write a counted set of addresses, in numeric order. -/
def encodeAddresses (list : CountedList) (addresses : AddressSet) : Except EncodeError Bytes := do
  let count ← encodeCount list addresses.size
  pure (count ++ addresses.toList.flatMap Address.octets)

end Meshcast
