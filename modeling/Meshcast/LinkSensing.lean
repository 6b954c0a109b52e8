import Meshcast.InformationBase
import Meshcast.Packet.Hello
import Meshcast.ValidityTime

/-!
# Meshcast — learning from greetings

A greeting tells a node three things about its sender: whether the sender hears the node, which
symmetric neighbors the sender has, and whether the sender chose the node as a relay. What an
earlier greeting of the same sender told is replaced.
-/

namespace Meshcast

/-- What a greeting says, sorted by whom it is about. -/
structure HelloReport where
  /-- The last code under which the receiver is listed. -/
  ownCode : Option LinkCode := none
  /-- The nodes listed as symmetric neighbors of the sender. -/
  reported : NodeSet := ∅
  /-- The nodes listed as no neighbors of the sender, or no longer. -/
  withdrawn : NodeSet := ∅

namespace HelloReport

/-- Account for one listing. The sender has nothing to say about itself. -/
def add (self sender : NodeId) (report : HelloReport) (code : LinkCode) (node : NodeId) :
    HelloReport :=
  if node = self then { report with ownCode := some code }
  else if node = sender then report
  else if code.neighbor = .notNeighbor then
    { report with withdrawn := report.withdrawn.insert node }
  else { report with reported := report.reported.insert node }

/-- Sort out a greeting, given the identifiers of the listed addresses. -/
def ofListings (self sender : NodeId) (codes : List LinkCode) (nodes : List NodeId) :
    HelloReport :=
  (codes.zip nodes).foldl (fun report (code, node) => report.add self sender code node) {}

/-- Bring the two-hop nodes behind the sender up to date, in two passes; says whether a pass changed
anything. The first keeps those that are reported and not withdrawn, the second adds all that are
reported. -/
def updateTwoHop (report : HelloReport) (known : NodeSet) : Bool × NodeSet :=
  let kept := known.filter fun node =>
    report.reported.contains node && !report.withdrawn.contains node
  report.reported.foldl
    (fun (changed, twoHop) node => (changed || !twoHop.contains node, twoHop.insert node))
    (kept.size != known.size, kept)

/-- The sender's status, given its status before and how it lists the receiver. A sender that says
it does not hear the receiver, or says nothing, is no symmetric neighbor. -/
def statusAfter (report : HelloReport) (current : NeighborType) : NeighborType :=
  match report.ownCode with
  | none => .notNeighbor
  | some code =>
    if code.link = .lost then .notNeighbor
    else if code.confirmsLink then
      if current = .notNeighbor then .symmetric else current
    else .notNeighbor

/-- Whether the sender chose the receiver as a relay. -/
def choosesReceiver (report : HelloReport) : Bool :=
  report.ownCode.any (·.neighbor = .relay)

end HelloReport

namespace InformationBase

/-- Put what a greeting reports into the sender's entry; says whether the entry is new or has
changed. -/
def recordNeighbor (base : InformationBase) (now : Nat) (sender : NodeId) (report : HelloReport)
    (lifetime : Nat) : Bool × InformationBase :=
  let known := (base.neighbors.get? now sender).getD { status := .notNeighbor }
  let status := report.statusAfter known.status
  let (twoHopChanged, twoHop) := report.updateTwoHop known.twoHop
  let (put, tx) :=
    (base.neighbors.table.transaction now).insert sender { status, twoHop } lifetime
  let changed := twoHopChanged || status ≠ known.status || put = .inserted
  (changed,
    { base with neighbors := base.neighbors.commit (if changed then tx.markChanged else tx) })

/-- Have a sender be among the selectors or not. Only symmetric neighbors stay selectors. -/
def recordSelector (base : InformationBase) (now : Nat) (sender : NodeId) (chosen : Bool) :
    InformationBase :=
  let (_, selectors) := base.selectors.update fun members =>
    prune (if chosen then members.insert sender else members.erase sender)
      (base.neighbors.symmetric now)
  { base with selectors }

/-- Learn from a greeting received from `source`; says whether the neighborhood changed. A node does
not greet itself. -/
def applyHello (base : InformationBase) (now : Nat) (source : Address) (hello : Hello)
    (validity : ValidityTime) : Bool × InformationBase :=
  let (sender, base) := base.intern source
  if sender = base.self then (false, base)
  else
    let (codes, addresses) := hello.listings.unzip
    let (nodes, registry) := base.registry.internAll addresses
    let report := HelloReport.ofListings base.self sender codes nodes
    let (changed, base) :=
      { base with registry }.recordNeighbor now sender report validity.millis
    (changed, base.recordSelector now sender report.choosesReceiver)

end InformationBase

end Meshcast
