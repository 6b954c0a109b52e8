/-!
# Meshcast — double-precision numbers as rationals

A double-precision number is taken apart from its sixty-four bits: a sign, eleven bits of exponent
and fifty-two bits of fraction. Every finite one is a rational number, so arithmetic on it is exact.
-/

namespace Meshcast

/-- The number that a double-precision bit pattern stands for. -/
inductive Binary64
  | nan
  | infinite (negative : Bool)
  | finite (value : Rat)

namespace Binary64

def twoPow (e : Int) : Rat :=
  if 0 ≤ e then (1 <<< e.toNat : Nat) else 1 / (1 <<< (-e).toNat : Nat)

/-- Read a bit pattern. An exponent field of zero marks a number below the normal range, one of all
ones marks an infinity or, with a nonzero fraction, no number at all. -/
def ofBits (bits : UInt64) : Binary64 :=
  let negative : Bool := bits.toNat >>> 63 = 1
  let exponent : Nat := (bits.toNat >>> 52) % 2048
  let fraction : Nat := bits.toNat % (1 <<< 52)
  if exponent = 2047 then
    if fraction = 0 then .infinite negative else .nan
  else
    let magnitude : Rat :=
      if exponent = 0 then (fraction : Nat) * twoPow (-1074)
      else (1 <<< 52 + fraction : Nat) * twoPow ((exponent : Int) - 1075)
    .finite (if negative then -magnitude else magnitude)

end Binary64

end Meshcast
