import Meshcast.Bytes

/-!
# Meshcast — hexadecimal text

The text of a byte string has two lowercase hexadecimal digits for each octet, the high one first:
`ofHex?_toHex` says that it reads back. Digits in upper case are read as well.
-/

namespace Meshcast

def hexDigits (octet : UInt8) : List Char :=
  [Nat.digitChar (octet.toNat / 16), Nat.digitChar (octet.toNat % 16)]

def toHex (bytes : Bytes) : String :=
  String.ofList (bytes.flatMap hexDigits)

def hexValue? (c : Char) : Option Nat :=
  if '0' ≤ c ∧ c ≤ '9' then some (c.toNat - '0'.toNat)
  else if 'a' ≤ c ∧ c ≤ 'f' then some (c.toNat - 'a'.toNat + 10)
  else if 'A' ≤ c ∧ c ≤ 'F' then some (c.toNat - 'A'.toNat + 10)
  else none

/-- Read pairs of digits, in front of octets that were read before them and stand last first. -/
def readHex : List Char → Bytes → Option Bytes
  | [], read => some read.reverse
  | [_], _ => none
  | high :: low :: rest, read => do
    let octet := UInt8.ofNat ((← hexValue? high) * 16 + (← hexValue? low))
    readHex rest (octet :: read)

def ofHex? (text : String) : Option Bytes :=
  readHex text.toList []

theorem hexValue?_digitChar {n : Nat} (h : n < 16) : hexValue? (Nat.digitChar n) = some n := by
  revert n
  decide

theorem readHex_flatMap (bytes read : Bytes) :
    readHex (bytes.flatMap hexDigits) read = some (read.reverse ++ bytes) := by
  induction bytes generalizing read with
  | nil => simp [readHex]
  | cons octet rest ih =>
    have bound := octet.toNat_lt
    have high : octet.toNat / 16 < 16 := by omega
    have low : octet.toNat % 16 < 16 := by omega
    have whole : UInt8.ofNat (octet.toNat / 16 * 16 + octet.toNat % 16) = octet := by
      rw [Nat.div_add_mod']
      exact UInt8.ofNat_toNat
    simp only [List.flatMap_cons, hexDigits, List.cons_append, List.nil_append, readHex,
      hexValue?_digitChar high, hexValue?_digitChar low, Option.bind_eq_bind, Option.bind_some,
      whole]
    simpa using ih (octet :: read)

theorem ofHex?_toHex (bytes : Bytes) : ofHex? (toHex bytes) = some bytes := by
  simp [ofHex?, toHex, readHex_flatMap]

end Meshcast
