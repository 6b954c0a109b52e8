import Std.Data.ExtTreeSet
import Meshcast.Bytes

/-!
# Meshcast — network addresses

Nodes and multicast groups are both named by 32-bit addresses. Addresses are ordered by their
numeric value, which is also the order of their octets.
-/

namespace Meshcast

/-- A 32-bit network address. -/
structure Address where
  bits : UInt32
deriving DecidableEq

namespace Address

instance : Ord Address := ⟨compareOn Address.bits⟩

instance : Std.TransOrd Address :=
  inferInstanceAs (Std.TransCmp (compareOn Address.bits))

instance : Std.LawfulEqOrd Address where
  eq_of_compare {a b} h := by
    have e : a.bits = b.bits := Std.LawfulEqOrd.eq_of_compare h
    cases a; cases b; cases e; rfl

def octets (a : Address) : Bytes :=
  bigEndian 4 a.bits.toNat

/-- The address with the given octets, in network order. -/
def ofOctets (octets : Bytes) : Address :=
  ⟨UInt32.ofNat (ofBigEndian octets)⟩

/-- The address `n` places further on, wrapping after the highest one. -/
def advance (a : Address) (n : Nat) : Address :=
  ⟨a.bits + UInt32.ofNat n⟩

def toText (a : Address) : String :=
  ".".intercalate (a.octets.map fun octet => toString octet.toNat)

/-- Read dotted decimal notation: four decimal numbers below 256. -/
def ofText? (text : String) : Option Address := do
  let numbers ← (text.splitOn ".").mapM String.toNat?
  if numbers.length = 4 ∧ numbers.all (· < 256) then
    some (ofOctets (numbers.map UInt8.ofNat))
  else
    none

@[simp] theorem length_octets (a : Address) : a.octets.length = 4 :=
  length_bigEndian 4 _

@[simp] theorem ofOctets_octets (a : Address) : ofOctets a.octets = a := by
  have h : a.bits.toNat < wordBound 4 := a.bits.toNat_lt
  simp [ofOctets, octets, ofBigEndian_bigEndian h]

end Address

/-- A set of addresses, enumerated in numeric order. -/
abbrev AddressSet := Std.ExtTreeSet Address

instance : LawfulBEq AddressSet := inferInstance

end Meshcast
