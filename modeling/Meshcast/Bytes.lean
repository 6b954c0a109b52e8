/-!
# Meshcast — byte strings

Byte strings are lists of octets. A fixed-width word is written most significant octet first
(`bigEndian`, the network order) or least significant octet first (`littleEndian`), and read back
by `ofBigEndian` and `ofLittleEndian`: `ofBigEndian_bigEndian` and `ofLittleEndian_littleEndian`
say that a number below `wordBound width` survives.
-/

namespace Meshcast

abbrev Bytes := List UInt8

/-- The first number that `width` octets cannot hold. -/
def wordBound : (width : Nat) → Nat
  | 0 => 1
  | width + 1 => wordBound width * 256

/-- The `width` low-order octets of `n`, least significant first. -/
def littleEndian : (width n : Nat) → Bytes
  | 0, _ => []
  | width + 1, n => UInt8.ofNat n :: littleEndian width (n / 256)

/-- The number whose octets are given least significant first. -/
def ofLittleEndian : Bytes → Nat
  | [] => 0
  | b :: rest => b.toNat + 256 * ofLittleEndian rest

/-- The `width` low-order octets of `n` in network order. -/
def bigEndian (width n : Nat) : Bytes :=
  (littleEndian width n).reverse

/-- The number whose octets are given in network order. -/
def ofBigEndian (bytes : Bytes) : Nat :=
  ofLittleEndian bytes.reverse

@[simp] theorem length_littleEndian (width n : Nat) : (littleEndian width n).length = width := by
  induction width generalizing n with
  | zero => rfl
  | succ width ih => simp [littleEndian, ih]

@[simp] theorem length_bigEndian (width n : Nat) : (bigEndian width n).length = width := by
  simp [bigEndian]

theorem ofLittleEndian_littleEndian {width n : Nat} (h : n < wordBound width) :
    ofLittleEndian (littleEndian width n) = n := by
  induction width generalizing n with
  | zero => simp_all [wordBound, littleEndian, ofLittleEndian]
  | succ width ih =>
    have hdiv : n / 256 < wordBound width := by
      rw [Nat.div_lt_iff_lt_mul (by decide)]
      exact h
    simp only [littleEndian, ofLittleEndian, ih hdiv, UInt8.toNat_ofNat']
    omega

theorem ofBigEndian_bigEndian {width n : Nat} (h : n < wordBound width) :
    ofBigEndian (bigEndian width n) = n := by
  simp [ofBigEndian, bigEndian, ofLittleEndian_littleEndian h]

end Meshcast
