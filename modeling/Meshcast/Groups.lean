import Std.Data.ExtTreeMap
import Meshcast.Address
import Meshcast.NodeId

/-!
# Meshcast — group membership

Which nodes joined which multicast groups. A node without groups has no row, so the rows are a
function of the membership relation alone. Every operation says whether it changed something, and
each has its own way to tell: whether a group was new to a row, whether it was in it, whether the row
is another one, how many rows are gone.
-/

namespace Meshcast

/-- The membership relation, and whether it changed since the flag was last lowered. -/
structure Groups where
  rows : Std.ExtTreeMap NodeId AddressSet := ∅
  changed : Bool := false
deriving DecidableEq

namespace Groups

def joined (g : Groups) (node : NodeId) : AddressSet :=
  g.rows[node]?.getD ∅

def isMember (g : Groups) (node : NodeId) (group : Address) : Bool :=
  (g.joined node).contains group

def members (g : Groups) (group : Address) : NodeSet :=
  .ofList ((g.rows.toList.filter fun (_, groups) => groups.contains group).map Prod.fst)

def all (g : Groups) : AddressSet :=
  .ofList (g.rows.toList.flatMap fun (_, groups) => groups.toList)

/-- The rows once a node has the given groups. -/
def rowsWith (g : Groups) (node : NodeId) (groups : AddressSet) :
    Std.ExtTreeMap NodeId AddressSet :=
  if groups.isEmpty then g.rows.erase node else g.rows.insert node groups

/-- Have a node join a group; says whether it was outside. -/
def register (g : Groups) (node : NodeId) (group : Address) : Bool × Groups :=
  let groups := g.joined node
  let inserted := !groups.contains group
  (inserted, { rows := g.rows.insert node (groups.insert group), changed := g.changed || inserted })

/-- Have a node leave a group; says whether it was inside. A row in which no group is left is
dropped, whether or not the node was inside. -/
def unregister (g : Groups) (node : NodeId) (group : Address) : Bool × Groups :=
  match g.rows[node]? with
  | none => (false, g)
  | some groups =>
    let removed := groups.contains group
    (removed, { rows := g.rowsWith node (groups.erase group), changed := g.changed || removed })

/-- Have a node be in exactly the given groups, unless its row says so already or it has no row and
there are none; says whether it had to be changed. -/
def update (g : Groups) (node : NodeId) (groups : AddressSet) : Bool × Groups :=
  let unchanged : Bool := match g.rows[node]? with
    | some current => current = groups
    | none => groups.isEmpty
  if unchanged then (false, g)
  else (true, { rows := g.rowsWith node groups, changed := true })

/-- Drop the rows of all nodes but those to keep, and count them. -/
def retain (g : Groups) (keep : NodeSet) : Nat × Groups :=
  let rows := g.rows.filter fun node _ => keep.contains node
  let dropped := g.rows.size - rows.size
  (dropped, { rows, changed := g.changed || 0 < dropped })

/-- Lower the flag, and say whether it was raised. -/
def takeChanged (g : Groups) : Bool × Groups :=
  (g.changed, { g with changed := false })

end Groups

end Meshcast
