import Meshcast.Link
import Meshcast.Wire

/-!
# Meshcast — greetings

A greeting lists the neighbors of its sender, grouped by link code. On the wire a group is its code
followed by a counted list of addresses; groups without addresses are left out, and groups of one
code that arrive apart are merged.
-/

namespace Meshcast

/-- A node's neighbors by link code. -/
structure Hello where
  groups : Std.ExtTreeMap LinkCode AddressSet := ∅
deriving DecidableEq

namespace Hello

def listedUnder (hello : Hello) (code : LinkCode) : AddressSet :=
  hello.groups[code]?.getD ∅

/-- List more addresses under a code; with no addresses the group comes to exist all the same. -/
def list (hello : Hello) (code : LinkCode) (addresses : List Address) : Hello :=
  ⟨hello.groups.insert code ((hello.listedUnder code).insertMany addresses)⟩

def listings (hello : Hello) : List (LinkCode × Address) :=
  hello.groups.toList.flatMap fun (code, addresses) => addresses.toList.map (code, ·)

def codeFor? (hello : Hello) (a : Address) : Option LinkCode :=
  (hello.groups.toList.find? fun (_, addresses) => addresses.contains a).map Prod.fst

def isEmpty (hello : Hello) : Bool :=
  hello.groups.toList.all fun (_, addresses) => addresses.isEmpty

/-- The groups that list somebody: those that are written. -/
def writtenGroups (hello : Hello) : List (LinkCode × AddressSet) :=
  hello.groups.toList.filter fun (_, addresses) => !addresses.isEmpty

def encodeGroup (group : LinkCode × AddressSet) : Except EncodeError Bytes := do
  let addresses ← encodeAddresses .helloNeighbors group.2
  pure (group.1.toOctet :: addresses)

def encode (hello : Hello) : Except EncodeError Bytes := do
  let count ← encodeCount .linkCodeGroups hello.writtenGroups.length
  let groups ← hello.writtenGroups.mapM encodeGroup
  pure (count ++ groups.flatten)

def decodeGroup : Decoder (LinkCode × List Address) := do
  let code ← LinkCode.ofOctet (← Decoder.octet)
  let addresses ← Decoder.addresses
  pure (code, addresses)

def decode : Decoder Hello := do
  let count ← Decoder.octet
  let groups ← Decoder.repeated decodeGroup count.toNat
  pure (groups.foldl (fun hello (code, addresses) => hello.list code addresses) {})

end Hello

end Meshcast
