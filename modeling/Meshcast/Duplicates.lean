import Meshcast.Expiring
import Meshcast.NodeId
import Meshcast.SeqNum

/-!
# Meshcast — messages already handled

Flooding brings the same message back from several sides. A node marks each message it handled, and
whether it sent it on, for a fixed time after the last copy.
-/

namespace Meshcast

/-- What tells a flooded message from all others for as long as it is remembered. -/
structure MessageId where
  originator : NodeId
  seq : SeqNum
deriving DecidableEq

namespace MessageId

instance : Ord MessageId := ⟨compareLex (compareOn MessageId.originator) (compareOn MessageId.seq)⟩

instance : Std.TransOrd MessageId :=
  inferInstanceAs
    (Std.TransCmp (compareLex (compareOn MessageId.originator) (compareOn MessageId.seq)))

instance : Std.LawfulEqOrd MessageId where
  eq_of_compare {a b} h := by
    obtain ⟨ho, hs⟩ := Ordering.then_eq_eq.1 h
    have eo : a.originator = b.originator := Std.LawfulEqOrd.eq_of_compare ho
    have es : a.seq = b.seq := Std.LawfulEqOrd.eq_of_compare hs
    cases a; cases b; cases eo; cases es; rfl

end MessageId

/-- The messages handled within the hold time. The mark says whether a message was sent on. -/
structure Duplicates where
  holdTime : Nat
  marks : ExpiringTable MessageId Bool := {}

namespace Duplicates

def seen (d : Duplicates) (now : Nat) (id : MessageId) : Bool :=
  d.marks.contains now id

def retransmitted (d : Duplicates) (now : Nat) (id : MessageId) : Bool :=
  (d.marks.get? now id).getD false

/-- Mark a message for the hold time. Once sent on, a message stays so for as long as it is
remembered. -/
def mark (d : Duplicates) (now : Nat) (id : MessageId) (retransmitted : Bool) : Duplicates :=
  let mark := retransmitted || d.retransmitted now id
  { d with marks := ((d.marks.transaction now).insert id mark d.holdTime).2.table }

/-- Forget what is past its hold time, and count it. -/
def sweep (d : Duplicates) (now : Nat) : Nat × Duplicates :=
  let (dropped, tx) := (d.marks.transaction now).sweep
  (dropped, { d with marks := tx.table })

def size (d : Duplicates) (now : Nat) : Nat :=
  d.marks.size now

end Duplicates

end Meshcast
