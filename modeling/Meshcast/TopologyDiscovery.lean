import Meshcast.InformationBase
import Meshcast.Packet.Tc
import Meshcast.ValidityTime

/-!
# Meshcast — learning from topology announcements

An announcement counts only if it comes in over a symmetric link and no newer one of its originator
is known. It then replaces what older announcements of the originator said.
-/

namespace Meshcast

/-- What became of an announcement. -/
inductive TcOutcome
  /-- It did not come from a symmetric neighbor and was dropped. -/
  | notSymmetric
  | stale
  /-- It was applied; `changed` says whether links or memberships are others than before. -/
  | applied (changed : Bool)
deriving DecidableEq

namespace Topology

/-- Whether a newer announcement of an originator is known. -/
def knowsNewer (t : Topology) (now : Nat) (originator : NodeId) (ansn : SeqNum) : Bool :=
  (t.table.live now).toList.any fun (arc, known) =>
    arc.source = originator && known.isNewerThan ansn

/-- Record an announced link. One that is known already keeps its number and lives on. -/
def recordArc (ansn : SeqNum) (lifetime : Nat) (tx : Transaction Arc SeqNum) (arc : Arc) :
    Transaction Arc SeqNum :=
  match tx.refresh arc lifetime with
  | (true, tx) => tx
  | (false, tx) => (tx.insert arc ansn lifetime).2

/-- Replace the older links of an originator by announced ones; says whether the set of links
changed. -/
def record (t : Topology) (now : Nat) (originator : NodeId) (ansn : SeqNum)
    (advertised : List NodeId) (lifetime : Nat) : Bool × Topology :=
  let (_, tx) := (t.table.transaction now).retain fun arc known =>
    arc.source ≠ originator || !known.isOlderThan ansn
  let tx := (advertised.map (⟨originator, ·⟩)).foldl (recordArc ansn lifetime) tx
  (tx.changed, t.commit tx)

end Topology

namespace InformationBase

/-- Learn from an announcement of `originator` received from `sender`. -/
def applyTc (base : InformationBase) (now : Nat) (originator sender : Address) (tc : Tc)
    (validity : ValidityTime) : TcOutcome × InformationBase :=
  if base.isSymmetricNeighbor now sender then
    let (origin, base) := base.intern originator
    let (advertised, registry) := base.registry.internAll tc.advertised.toList
    let base := { base with registry }
    if base.topology.knowsNewer now origin tc.ansn then (.stale, base)
    else
      let (linksChanged, topology) :=
        base.topology.record now origin tc.ansn advertised validity.millis
      let (groupsChanged, groups) := base.groups.update origin tc.groups
      (.applied (linksChanged || groupsChanged), { base with topology, groups })
  else (.notSymmetric, base)

end InformationBase

end Meshcast
