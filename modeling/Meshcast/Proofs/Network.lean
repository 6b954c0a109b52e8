import Mathlib.Combinatorics.SimpleGraph.Connectivity.Connected
import Meshcast.Proofs.ControlPackets

/-!
# Meshcast — a network of nodes that flood an announcement

Nodes hear each other along the edges of a finite graph. A node that transmits a packet puts one
delivery for each node that hears it in flight; which delivery is taken next is nobody's choice, so
a flood is followed along a *schedule*, the places in flight of the deliveries in the order in which
they are taken. Time stands still meanwhile.

* **`Network.Consistent`** — the nodes know their neighbors, chose relays that cover everybody two
  hops away, and know who chose them.
* **`Flood`**, **`Network.deliver`** — a flood in progress, and one delivery.
* **`Network.flood?`** — the flood along a schedule.
-/

namespace Meshcast

/-- Nodes at one reading of the clock that hear each other along the edges of a graph. -/
structure Network (n : ℕ) where
  graph : SimpleGraph (Fin n)
  [decidableAdj : DecidableRel graph.Adj]
  nodes : Fin n → Node
  now : ℕ

/-- A transmitted packet on its way to one of those who hear it. -/
structure Delivery (n : ℕ) where
  sender : Fin n
  receiver : Fin n
  packet : Packet
deriving DecidableEq

/-- What was handed to a handler: by whom, and whether it came from a symmetric neighbor. -/
structure Handover (n : ℕ) where
  receiver : Fin n
  body : Body
  symmetric : Bool
deriving DecidableEq

/-- A flood in progress. -/
structure Flood (n : ℕ) where
  nodes : Fin n → Node
  inFlight : List (Delivery n)
  /-- Who sent the announcement on, the latest first. -/
  sentOn : List (Fin n) := []
  /-- What was handed to handlers, the latest first. -/
  handed : List (Handover n) := []

namespace Flood

/-- Who handed the announcement to its handler, the latest first. -/
def handlers {n : ℕ} (state : Flood n) : List (Fin n) :=
  state.handed.map Handover.receiver

end Flood

namespace Network

variable {n : ℕ} (net : Network n)

instance : DecidableRel net.graph.Adj :=
  net.decidableAdj

def address (v : Fin n) : Address :=
  (net.nodes v).address

/-- Whether `w` chose `m` as a relay. -/
def isRelayOf (m w : Fin n) : Bool :=
  ((net.nodes w).registry.lookup? (net.address m)).any (net.nodes w).relays.members.contains

/-- Whether `m` counts `w` among its selectors. -/
def isSelectorOf (w m : Fin n) : Bool :=
  ((net.nodes m).registry.lookup? (net.address w)).any (net.nodes m).selectors.members.contains

/-- What the nodes know of each other is what is the case, and their relays are well chosen. -/
structure Consistent : Prop where
  address_injective : ∀ v w, net.address v = net.address w → v = w
  symmetric_iff : ∀ w v, (net.nodes w).isSymmetricNeighbor net.now (net.address v) = true ↔
    net.graph.Adj w v
  adj_of_isRelayOf : ∀ w m, net.isRelayOf m w = true → net.graph.Adj w m
  /-- Whoever is two hops away from `w` hears one of its relays. -/
  covered : ∀ w x y, net.graph.Adj w x → net.graph.Adj x y → y ≠ w → ¬net.graph.Adj w y →
    ∃ m, net.isRelayOf m w = true ∧ net.graph.Adj m y
  isSelectorOf_eq : ∀ w m, net.isSelectorOf w m = net.isRelayOf m w

/-- A transmission reaches all who hear it. -/
def transmit (v : Fin n) (packet : Packet) : List (Delivery n) :=
  ((List.finRange n).filter fun w => net.graph.Adj v w).map (⟨v, ·, packet⟩)

/-- The node `s` transmits a packet. -/
def emit (s : Fin n) (packet : Packet) : Flood n :=
  { nodes := net.nodes, inFlight := net.transmit s packet }

/-- A delivery is handled by its receiver, while the other ones stay in flight. What the receiver
answers is transmitted in turn. -/
def deliver (state : Flood n) (others : List (Delivery n)) (d : Delivery n) : Flood n :=
  let node := state.nodes d.receiver
  let sender := (state.nodes d.sender).address
  let (sent, node') := node.receivePacket net.now d.packet sender
  { nodes := Function.update state.nodes d.receiver node'
    inFlight := others ++ sent.toList.flatMap (net.transmit d.receiver)
    sentOn := if sent.isSome then d.receiver :: state.sentOn else state.sentOn
    handed :=
      if node.handsOver net.now d.packet sender then
        ⟨d.receiver, d.packet.body, node.isSymmetricNeighbor net.now sender⟩ :: state.handed
      else state.handed }

/-- Take the delivery at a place, if there is one. -/
def deliverAt? (state : Flood n) (k : ℕ) : Option (Flood n) :=
  state.inFlight[k]?.map (net.deliver state (state.inFlight.eraseIdx k))

/-- The flood of a packet transmitted by `s`, along a schedule. There is none if the schedule calls
for a delivery when nothing is there to be delivered. -/
def flood? (s : Fin n) (packet : Packet) (schedule : List ℕ) : Option (Flood n) :=
  schedule.foldlM net.deliverAt? (net.emit s packet)

/-- What holds at first and is preserved by every delivery holds along every schedule. -/
theorem flood?_induction {s : Fin n} {packet : Packet} {P : ℕ → Flood n → Prop}
    (start : P 0 (net.emit s packet))
    (step : ∀ steps state k d, P steps state → state.inFlight[k]? = some d →
      P (steps + 1) (net.deliver state (state.inFlight.eraseIdx k) d))
    {schedule : List ℕ} {state : Flood n} (h : net.flood? s packet schedule = some state) :
    P schedule.length state := by
  induction schedule using List.reverseRecOn generalizing state with
  | nil =>
    cases h
    exact start
  | append_singleton earlier k ih =>
    unfold flood? at h
    rw [List.foldlM_append] at h
    obtain ⟨before, hbefore, hlast⟩ := Option.bind_eq_some_iff.1 h
    rw [List.foldlM_cons] at hlast
    obtain ⟨after, hafter, hdone⟩ := Option.bind_eq_some_iff.1 hlast
    cases hdone
    obtain ⟨d, hd, rfl⟩ := Option.map_eq_some_iff.1 hafter
    rw [List.length_append, List.length_singleton]
    exact step earlier.length before k d (ih hbefore) hd

end Network

end Meshcast
