import Meshcast.Expiring
import Meshcast.NodeId
import Meshcast.SeqNum

/-!
# Meshcast — the advertised topology

An arc of the topology says that its source announced a link to its target; it carries the number of
the announcement.
-/

namespace Meshcast

/-- The links announced all over the network, and whether they changed since the flag was last
lowered. -/
structure Topology where
  table : ExpiringTable Arc SeqNum := {}
  changed : Bool := false

namespace Topology

/-- Take over the outcome of a transaction. -/
def commit (t : Topology) (tx : Transaction Arc SeqNum) : Topology :=
  { table := tx.table, changed := t.changed || tx.changed }

/-- The number an arc was announced under. -/
def get? (t : Topology) (now : Nat) (arc : Arc) : Option SeqNum :=
  t.table.get? now arc

def arcs (t : Topology) (now : Nat) : List Arc :=
  t.table.keys now

def advertisedBy (t : Topology) (now : Nat) (originator : NodeId) : NodeSet :=
  .ofList (((t.arcs now).filter (·.source = originator)).map Arc.target)

def originators (t : Topology) (now : Nat) : NodeSet :=
  .ofList ((t.arcs now).map Arc.source)

def nodes (t : Topology) (now : Nat) : NodeSet :=
  .ofList ((t.arcs now).flatMap fun arc => [arc.source, arc.target])

def size (t : Topology) (now : Nat) : Nat :=
  t.table.size now

def sweep (t : Topology) (now : Nat) : Nat × Topology :=
  let (dropped, tx) := (t.table.transaction now).sweep
  (dropped, t.commit tx)

/-- Lower the flag, and say whether it was raised. -/
def takeChanged (t : Topology) : Bool × Topology :=
  (t.changed, { t with changed := false })

end Topology

end Meshcast
