import Meshcast.Wire

/-!
# Meshcast — variable-length integers

A number below 251 is written as one octet. A larger one follows a tag that names its width: 251 for
two octets, 252 for four, 253 for eight, least significant octet first. Writing takes the shortest
form, reading takes any that fits the place; the tags 254 and 255 name widths that no place admits.
-/

namespace Meshcast

namespace Varint

def encode (n : Nat) : Bytes :=
  if n < 251 then [UInt8.ofNat n]
  else if n < 65536 then 251 :: littleEndian 2 n
  else if n < 4294967296 then 252 :: littleEndian 4 n
  else 253 :: littleEndian 8 n

def take (needed : Nat) : Decoder Bytes :=
  Decoder.takeOr (fun needed remaining => .data (.unexpectedEnd (needed - remaining))) needed

def tag : Decoder Nat :=
  ofLittleEndian <$> take 1

def word (width : Nat) : Decoder Nat :=
  ofLittleEndian <$> take width

def refuse {α : Type} (expected found : IntegerType) : Decoder α :=
  fun _ => .error (.data (.invalidIntegerType expected found))

def decode32 : Decoder Nat := do
  match ← tag with
  | 251 => word 2
  | 252 => word 4
  | 253 => refuse .u32 .u64
  | 254 => refuse .u32 .u128
  | 255 => refuse .u32 .reserved
  | n => pure n

/-- The width a refused tag of an eight-octet place is held against: the narrower one if a whole
eight-octet number would be there to read. -/
def widthHeldAgainst (rest : Bytes) : IntegerType :=
  if (rest.take 8).length = 8 then .u32 else .u64

def decode64 : Decoder Nat := do
  match ← tag with
  | 251 => word 2
  | 252 => word 4
  | 253 => word 8
  | 254 => refuse (widthHeldAgainst (← get)) .u128
  | 255 => refuse (widthHeldAgainst (← get)) .reserved
  | n => pure n

end Varint

end Meshcast
