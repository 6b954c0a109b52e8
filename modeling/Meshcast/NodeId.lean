import Std.Data.ExtTreeSet

/-!
# Meshcast — node identifiers

Inside a node every participant is known by a small identifier, handed out in the order in which
participants are first heard of. Sets of nodes and of directed pairs of nodes are enumerated in
identifier order.
-/

namespace Meshcast

/-- The position of a participant in the order of first contact. -/
structure NodeId where
  index : Nat
deriving DecidableEq

namespace NodeId

instance : Ord NodeId := ⟨compareOn NodeId.index⟩

instance : Std.TransOrd NodeId :=
  inferInstanceAs (Std.TransCmp (compareOn NodeId.index))

instance : Std.LawfulEqOrd NodeId where
  eq_of_compare {a b} h := by
    have e : a.index = b.index := Std.LawfulEqOrd.eq_of_compare h
    cases a; cases b; cases e; rfl

def toText (id : NodeId) : String :=
  "#" ++ toString id.index

end NodeId

/-- A set of nodes, enumerated in identifier order. -/
abbrev NodeSet := Std.ExtTreeSet NodeId

instance : LawfulBEq NodeSet := inferInstance

/-- A directed pair of nodes. -/
structure Arc where
  source : NodeId
  target : NodeId
deriving DecidableEq

namespace Arc

instance : Ord Arc := ⟨compareLex (compareOn Arc.source) (compareOn Arc.target)⟩

instance : Std.TransOrd Arc :=
  inferInstanceAs (Std.TransCmp (compareLex (compareOn Arc.source) (compareOn Arc.target)))

instance : Std.LawfulEqOrd Arc where
  eq_of_compare {a b} h := by
    obtain ⟨hs, ht⟩ := Ordering.then_eq_eq.1 h
    have es : a.source = b.source := Std.LawfulEqOrd.eq_of_compare hs
    have et : a.target = b.target := Std.LawfulEqOrd.eq_of_compare ht
    cases a; cases b; cases es; cases et; rfl

end Arc

/-- A set of directed pairs, enumerated by source and then by target. -/
abbrev ArcSet := Std.ExtTreeSet Arc

end Meshcast
