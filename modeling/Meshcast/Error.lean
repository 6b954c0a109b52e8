import Meshcast.Hex

/-!
# Meshcast — what can go wrong

Each way to refuse an input is a constructor here; its wording is one function per kind of error.
-/

namespace Meshcast

/-- The integer types a variable-length integer can name. -/
inductive IntegerType
  | u32 | u64 | u128 | reserved
deriving DecidableEq

def IntegerType.name : IntegerType → String
  | .u32 => "U32"
  | .u64 => "U64"
  | .u128 => "U128"
  | .reserved => "Reserved"

/-- Why the bytes of a data message do not read. -/
inductive DataError
  /-- A read ran past the end by `additional` bytes. -/
  | unexpectedEnd (additional : Nat)
  | invalidIntegerType (expected found : IntegerType)
deriving DecidableEq

def DataError.message : DataError → String
  | .unexpectedEnd additional =>
      "UnexpectedEnd \x7b additional: " ++ toString additional ++ " \x7d"
  | .invalidIntegerType expected found =>
      "InvalidIntegerType \x7b expected: " ++ expected.name ++ ", found: " ++ found.name ++ " \x7d"

/-- Why bytes are not a message. -/
inductive DecodeError
  /-- A read of `needed` bytes met only `remaining`. -/
  | truncated (needed remaining : Nat)
  | unknownMessageType (octet : UInt8)
  | invalidLinkCode (octet : UInt8)
  | trailingBytes (count : Nat)
  | data (cause : DataError)
deriving DecidableEq

def DecodeError.message : DecodeError → String
  | .truncated needed remaining =>
      "truncated input: needed " ++ toString needed ++ " bytes, " ++ toString remaining
        ++ " remaining"
  | .unknownMessageType octet => "unknown message type: " ++ toString octet.toNat
  | .invalidLinkCode octet => "invalid link code: 0x" ++ toHex [octet]
  | .trailingBytes count => toString count ++ " trailing bytes after message"
  | .data cause => "data message: " ++ cause.message

/-- The lists of a control packet whose length is written in one octet. -/
inductive CountedList
  | linkCodeGroups | helloNeighbors | advertisedNeighbors | multicastGroups
deriving DecidableEq

def CountedList.name : CountedList → String
  | .linkCodeGroups => "link code groups"
  | .helloNeighbors => "hello neighbors"
  | .advertisedNeighbors => "advertised neighbors"
  | .multicastGroups => "multicast groups"

/-- Why a message has no bytes: one of its lists is too long to be counted in one octet. -/
inductive EncodeError
  | tooManyEntries (list : CountedList) (length : Nat)
deriving DecidableEq

def EncodeError.message : EncodeError → String
  | .tooManyEntries list length =>
      "too many entries in " ++ list.name ++ ": " ++ toString length ++ " (max 255)"

/-- Why a graph has no spanning tree. -/
inductive SpanningError
  /-- Only `reached` of `total` nodes hang together with the root. -/
  | disconnected (reached total : Nat)
  | missingRoot
deriving DecidableEq

def SpanningError.message : SpanningError → String
  | .disconnected reached total =>
      "graph is disconnected: reached " ++ toString reached ++ " of " ++ toString total ++ " nodes"
  | .missingRoot => "root is not part of the graph"

end Meshcast
