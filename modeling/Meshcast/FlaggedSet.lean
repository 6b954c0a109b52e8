import Meshcast.NodeId
import Meshcast.SeqNum

/-!
# Meshcast — sets that notice their changes

A set of nodes with a flag that every change raises. The relays a node chose are such a set; so are
its selectors, the neighbors that chose it, which are announced under a sequence number that moves
on whenever a change is noticed.
-/

namespace Meshcast

/-- A set of nodes and whether it changed since the flag was last lowered. -/
structure FlaggedSet where
  members : NodeSet := ∅
  changed : Bool := false
deriving DecidableEq

namespace FlaggedSet

/-- Make `members` the members; says whether they are others than before. -/
def replace (s : FlaggedSet) (members : NodeSet) : Bool × FlaggedSet :=
  if s.members = members then (false, s) else (true, { members, changed := true })

/-- Add a node; says whether it is new. -/
def insert (s : FlaggedSet) (node : NodeId) : Bool × FlaggedSet :=
  let inserted := !s.members.contains node
  (inserted, { members := s.members.insert node, changed := s.changed || inserted })

/-- Take a node away; says whether it was there. -/
def remove (s : FlaggedSet) (node : NodeId) : Bool × FlaggedSet :=
  let removed := s.members.contains node
  (removed, { members := s.members.erase node, changed := s.changed || removed })

/-- Change the members by a function; says whether they are others than before. -/
def update (s : FlaggedSet) (f : NodeSet → NodeSet) : Bool × FlaggedSet :=
  s.replace (f s.members)

/-- Lower the flag, and say whether it was raised. -/
def takeChanged (s : FlaggedSet) : Bool × FlaggedSet :=
  (s.changed, { s with changed := false })

end FlaggedSet

def prune (members keep : NodeSet) : NodeSet :=
  members.filter keep.contains

/-- The neighbors that have the node relay for them. -/
structure Selectors where
  set : FlaggedSet := {}
  /-- The number under which the set was last announced. -/
  ansn : SeqNum := ⟨0⟩
deriving DecidableEq

namespace Selectors

def members (s : Selectors) : NodeSet :=
  s.set.members

/-- Change the selectors by a function; says whether they are others than before. -/
def update (s : Selectors) (f : NodeSet → NodeSet) : Bool × Selectors :=
  let (changed, set) := s.set.update f
  (changed, { s with set })

/-- What to announce. A change since the last announcement moves the number on. -/
def advertise (s : Selectors) : (SeqNum × NodeSet) × Selectors :=
  let (changed, set) := s.set.takeChanged
  let ansn := if changed then s.ansn.next else s.ansn
  ((ansn, set.members), { set, ansn })

end Selectors

end Meshcast
