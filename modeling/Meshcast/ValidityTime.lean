import Meshcast.Binary64

/-!
# Meshcast — validity times

How long a message's contents may be believed travels in one octet: the high nibble is a mantissa
`a`, the low nibble an exponent `b`, and the time is `(1 + a / 16) * 2 ^ b` sixteenths of a second.
Encoding picks the largest exponent that fits and rounds the mantissa to the nearest integer, a half
away from zero.
-/

namespace Meshcast

/-- A validity time in its one-octet form. -/
structure ValidityTime where
  octet : UInt8
deriving DecidableEq

namespace ValidityTime

def shortest : Rat := 1 / 16

def mantissa (v : ValidityTime) : Nat :=
  v.octet.toNat / 16

def exponent (v : ValidityTime) : Nat :=
  v.octet.toNat % 16

def ofNibbles (mantissa exponent : Nat) : ValidityTime :=
  ⟨UInt8.ofNat (mantissa * 16 + exponent)⟩

def seconds (v : ValidityTime) : Rat :=
  shortest * (1 + (v.mantissa : Rat) / 16) * (1 <<< v.exponent : Nat)

/-- The time in whole milliseconds, rounded down. -/
def millis (v : ValidityTime) : Nat :=
  ((16 + v.mantissa) <<< v.exponent) * 1000 / 256

/-- The time in nanoseconds; every validity time is a whole number of them. -/
def nanos (v : ValidityTime) : Nat :=
  ((16 + v.mantissa) <<< v.exponent) * 3906250

/-- The double-precision bits of the time in seconds. The mantissa supplies the four leading bits of
the fraction, so the number is exact. -/
def binary64Bits (v : ValidityTime) : UInt64 :=
  UInt64.ofNat ((1019 + v.exponent) <<< 52 + v.mantissa <<< 48)

/-- Raise an exponent as long as the next power of two fits into `s`, at most `left` times. -/
def raiseExponent (s : Rat) : (left b : Nat) → Nat
  | 0, b => b
  | left + 1, b =>
    if shortest * (1 <<< (b + 1) : Nat) ≤ s then raiseExponent s left (b + 1) else b

/-- The largest exponent whose power of two fits into `s`. -/
def exponentFor (s : Rat) : Nat :=
  raiseExponent s 15 0

/-- The nearest integer to a non-negative number, the larger one if two are equally near. -/
def roundHalfUp (x : Rat) : Nat :=
  (x + 1 / 2).floor.toNat

/-- The mantissa and the exponent for a number of seconds. What is shorter than the shortest time
counts as that time, what is longer than the longest as the longest. A mantissa rounded up to sixteen
carries into the exponent. -/
def nibblesFor (s : Rat) : Nat × Nat :=
  if s < shortest then (0, 0)
  else
    let b := exponentFor s
    let a := roundHalfUp (16 * (s / (shortest * (1 <<< b : Nat)) - 1))
    if a < 16 then (a, b)
    else if b < 15 then (0, b + 1)
    else (15, 15)

/-- Encode a number of seconds. -/
def ofSeconds (s : Rat) : ValidityTime :=
  let (mantissa, exponent) := nibblesFor s
  ofNibbles mantissa exponent

def ofMillis (ms : Nat) : ValidityTime :=
  ofSeconds ((ms : Rat) / 1000)

/-- Encode a double-precision number of seconds. What is no number counts as the shortest time. -/
def ofBinary64 : Binary64 → ValidityTime
  | .nan | .infinite true => ofNibbles 0 0
  | .infinite false => ofNibbles 15 15
  | .finite s => ofSeconds s

end ValidityTime

end Meshcast
