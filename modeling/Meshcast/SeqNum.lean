import Std.Data.ExtTreeMap

/-!
# Meshcast — sequence numbers

Sixteen-bit counters that wrap. Of two different numbers the one ahead by less than half of the
number space is the newer; a distance of exactly half is decided against the numerically larger
one. The relation is not transitive, so it is no order on the type, but `age_swap` says that it is
antisymmetric.
-/

namespace Meshcast

/-- A wrapping sequence number. -/
structure SeqNum where
  value : UInt16
deriving DecidableEq

namespace SeqNum

instance : Ord SeqNum := ⟨compareOn SeqNum.value⟩

instance : Std.TransOrd SeqNum :=
  inferInstanceAs (Std.TransCmp (compareOn SeqNum.value))

instance : Std.LawfulEqOrd SeqNum where
  eq_of_compare {a b} h := by
    have e : a.value = b.value := Std.LawfulEqOrd.eq_of_compare h
    cases a; cases b; cases e; rfl

/-- The largest lead that still makes a number the newer one. -/
def maxLead : UInt16 := 32767

/-- The successor; zero follows the largest number. -/
def next (a : SeqNum) : SeqNum :=
  ⟨a.value + 1⟩

/-- How old `a` is relative to `b`: `.gt` if it is newer, `.lt` if it is older. -/
def age (a b : SeqNum) : Ordering :=
  if a.value = b.value then .eq
  else if b.value < a.value then
    if a.value - b.value ≤ maxLead then .gt else .lt
  else
    if b.value - a.value ≤ maxLead then .lt else .gt

def isNewerThan (a b : SeqNum) : Bool :=
  a.age b == .gt

def isOlderThan (a b : SeqNum) : Bool :=
  a.age b == .lt

/-- The order does not depend on which number is asked, not even at half the circle. -/
theorem age_swap (a b : SeqNum) : (a.age b).swap = b.age a := by
  unfold age
  by_cases e : a.value = b.value
  · simp [e]
  · have e' : b.value ≠ a.value := fun h => e h.symm
    by_cases l : b.value < a.value
    · have l' : ¬a.value < b.value := UInt16.lt_asymm l
      simp only [e, e', l, l', if_true, if_false]
      split <;> rfl
    · have l' : a.value < b.value := by
        rw [UInt16.lt_iff_toNat_lt] at l ⊢
        have := mt UInt16.toNat_inj.1 e
        omega
      simp only [e, e', l, l', if_true, if_false]
      split <;> rfl

theorem isOlderThan_eq (a b : SeqNum) : a.isOlderThan b = b.isNewerThan a := by
  unfold isOlderThan isNewerThan
  rw [← age_swap b a]
  cases b.age a <;> rfl

end SeqNum

end Meshcast
