import Meshcast.Proofs.ChangeFlags
import Meshcast.Proofs.Neighborhood
import Meshcast.Proofs.Runs

/-!
# Meshcast — what a node derives is never out of date unnoticed

The arcs, the relays, the routes, the graph and the overlays of a node are computed from its tables,
and only when a table says that it changed. Between two rounds of maintenance the tables change in
many ways, also by the mere passage of time, yet no change escapes a sweep followed by a
computation at the same reading of the clock.

* **`Node.UpToDate`** — the invariant of all runs: whatever is derived is what the tables say,
  unless a flag is up or a dead entry is waiting to be swept, which will raise one.
* **`Node.TablesNoted`** — from one state of a node to another the tables changed in noted ways.
* **`UpToDate.of_tablesNoted`** — such changes preserve the invariant.
* **`tablesNoted_perform`** — all operations make such changes, save for computing afresh and the
  tick of the grace periods.
-/

namespace Meshcast

namespace Node

/-! ## Derived state that is current -/

/-- The published arcs are those of the live neighbors. -/
def ArcsCurrent (node : Node) (now : Nat) : Prop :=
  node.neighbors.twoHopArcs =
    Neighborhood.arcsOfAll node.self (node.neighbors.table.live now)

/-- The relays are the choice among the live symmetric neighbors, and these are marked so. -/
def RelaysCurrent (node : Node) (now : Nat) : Prop :=
  node.relays.members =
      selectRelays node.self (node.neighbors.symmetric now) node.neighbors.twoHopArcs
    ∧ ∀ (id : NodeId) (entry : Neighbor), node.neighbors.get? now id = some entry →
        entry.isSymmetric → (entry.status = .relay ↔ id ∈ node.relays.members)

/-- Routes and graph are those of the live neighbors and links. -/
def RoutesCurrent (node : Node) (now : Nat) : Prop :=
  node.routes =
      computeRoutes node.self (node.neighbors.symmetric now) node.neighbors.twoHopArcs
        (node.topology.arcs now)
    ∧ node.graph =
        knownGraph node.self (node.neighbors.symmetric now) node.neighbors.twoHopArcs
          (node.topology.arcs now)

/-- Each overlay holds the graph of its group and a tree of that graph, and a group with members
that has no overlay needs none: the node is outside, and the tree would be the node alone. -/
def OverlaysCurrent (node : Node) : Prop :=
  (∀ (group : Address) (overlay : Overlay), node.overlays[group]? = some overlay →
      overlay.graph = groupGraph node.graph node.groups node.self group
        ∧ overlay.tree = Overlay.treeOver node.self overlay.graph)
    ∧ ∀ group ∈ node.groups.all, node.overlays[group]? = none →
        node.groups.isMember node.self group = false
          ∧ (Overlay.treeOver node.self
              (groupGraph node.graph node.groups node.self group)).size ≤ 1

/-- What is derived is current unless a flag is up or a dead entry is waiting for the sweep. -/
structure UpToDate (node : Node) (now : Nat) : Prop where
  /-- Every overlay is one of the node itself. -/
  owned : ∀ (group : Address) (overlay : Overlay), node.overlays[group]? = some overlay →
    overlay.self = node.self
  arcs : node.neighbors.table.Settled now → node.ArcsCurrent now
  relays : node.neighbors.table.Settled now → node.neighbors.relaysDirty = false →
    node.RelaysCurrent now
  routes : node.neighbors.table.Settled now → node.topology.table.Settled now →
    node.neighbors.changed = false → node.topology.changed = false → node.RoutesCurrent now
  overlays : node.neighbors.changed = false → node.topology.changed = false →
    node.groups.changed = false → node.OverlaysCurrent

/-! ## Changes of the tables -/

/-- From `node` to `node'` the tables changed in noted ways and nothing was derived afresh. -/
structure TablesNoted (now : Nat) (node node' : Node) : Prop where
  neighbors : Neighborhood.Noted now node.neighbors node'.neighbors
  topology : Topology.Noted now node.topology node'.topology
  groups : Groups.Noted node.groups node'.groups
  relays : node'.relays = node.relays
  routes : node'.routes = node.routes
  graph : node'.graph = node.graph
  overlays : node'.overlays = node.overlays

/-- A change of the tables that is noted leaves nothing out of date unnoticed. -/
theorem UpToDate.of_tablesNoted {node node' : Node} {now : Nat} (h : node.UpToDate now)
    (hn : TablesNoted now node node') : node'.UpToDate now := by
  obtain ⟨hself, hneighbors⟩ := hn.neighbors
  have hself' : node'.self = node.self := hself
  -- unless the arcs were published afresh, the live neighbors are the same once all are live
  have hsame : ∀ hs : node'.neighbors.table.Settled now,
      Neighborhood.Unchanged now node.neighbors node'.neighbors →
        node'.neighbors.symmetric now = node.neighbors.symmetric now
          ∧ ∀ id, node'.neighbors.get? now id = node.neighbors.get? now id := by
    intro hs hu
    constructor
    · unfold Neighborhood.symmetric Neighborhood.entries
      rw [hu.live_eq hs]
    · intro id
      show node'.neighbors.table.get? now id = node.neighbors.table.get? now id
      rw [← ExpiringTable.getElem?_live, ← ExpiringTable.getElem?_live, hu.live_eq hs]
  refine ⟨?_, ?_, ?_, ?_, ?_⟩
  · intro group overlay hoverlay
    rw [hn.overlays] at hoverlay
    rw [hself']
    exact h.owned group overlay hoverlay
  · intro hs
    rcases hneighbors with hp | hu
    · exact hp.arcs
    · unfold ArcsCurrent
      rw [hu.arcs, hself', hu.live_eq hs]
      exact h.arcs (hu.settled hs)
  · intro hs hdirty
    rcases hneighbors with hp | hu
    · exact absurd hp.relaysDirty (by rw [hdirty]; nofun)
    · obtain ⟨hsymmetric, hget⟩ := hsame hs hu
      unfold RelaysCurrent
      simp only [hn.relays, hself', hsymmetric, hu.arcs, hget]
      exact h.relays (hu.settled hs) (hu.relaysDirty ▸ hdirty)
  · intro hs ht hchanged htopology
    rcases hneighbors with hp | hu
    · exact absurd hp.changed (by rw [hchanged]; nofun)
    rcases hn.topology with hup | ⟨hflag, hlinks⟩
    · exact absurd hup (by rw [htopology]; nofun)
    obtain ⟨hsymmetric, -⟩ := hsame hs hu
    obtain ⟨htsettled, htlive⟩ := hlinks ht
    have harcs : node'.topology.arcs now = node.topology.arcs now := by
      unfold Topology.arcs ExpiringTable.keys
      rw [htlive]
    unfold RoutesCurrent
    rw [hn.routes, hn.graph, hself', hsymmetric, hu.arcs, harcs]
    exact h.routes (hu.settled hs) htsettled (hu.changed ▸ hchanged) (hflag ▸ htopology)
  · intro hchanged htopology hgroups
    rcases hneighbors with hp | hu
    · exact absurd hp.changed (by rw [hchanged]; nofun)
    rcases hn.topology with hup | ⟨hflag, -⟩
    · exact absurd hup (by rw [htopology]; nofun)
    rcases hn.groups with hup | hg
    · exact absurd hup (by rw [hgroups]; nofun)
    obtain ⟨hgflag, hagrees⟩ := hg
    unfold OverlaysCurrent groupGraph
    simp only [hn.overlays, hn.graph, hself', hagrees.members_eq, hagrees.all_eq,
      hagrees.isMember_eq]
    exact h.overlays (hu.changed ▸ hchanged) (hflag ▸ htopology) (hgflag ▸ hgroups)

theorem TablesNoted.of_eq {now : Nat} {node node' : Node}
    (hneighbors : node'.neighbors = node.neighbors) (htopology : node'.topology = node.topology)
    (hgroups : node'.groups = node.groups) (hrelays : node'.relays = node.relays)
    (hroutes : node'.routes = node.routes) (hgraph : node'.graph = node.graph)
    (hoverlays : node'.overlays = node.overlays) : TablesNoted now node node' :=
  ⟨hneighbors ▸ .refl now _, htopology ▸ .refl now _, hgroups ▸ .refl _, hrelays, hroutes, hgraph,
    hoverlays⟩

/-! ## Operations that leave derived state alone -/

theorem forward_eq (node : Node) (now : Nat) (id : MessageId) (packet : Packet)
    (neighbor : Address) :
    ∃ duplicates, (node.forward now id packet neighbor).2 = { node with duplicates } := by
  unfold forward
  split
  · exact ⟨node.duplicates, rfl⟩
  · exact ⟨_, rfl⟩

theorem tablesNoted_receivePacket (node : Node) (now : Nat) (packet : Packet)
    (neighbor : Address) : TablesNoted now node (node.receivePacket now packet neighbor).2 := by
  unfold receivePacket
  split
  · exact .of_eq rfl rfl rfl rfl rfl rfl rfl
  · dsimp only
    split
    · rename_i hello _
      split
      · exact .of_eq rfl rfl rfl rfl rfl rfl rfl
      · have h := InformationBase.noted_applyHello
          { node.toInformationBase with
            registry := (node.registry.intern packet.header.originator).2 }
          now neighbor hello packet.header.validity
        exact ⟨h.neighbors, h.topology, h.groups, rfl, rfl, rfl, rfl⟩
    · rename_i tc _
      obtain ⟨duplicates, hforward⟩ := forward_eq _ now _ packet neighbor
      rw [hforward]
      split
      · exact .of_eq rfl rfl rfl rfl rfl rfl rfl
      · have h := InformationBase.noted_applyTc
          { node.toInformationBase with
            registry := (node.registry.intern packet.header.originator).2 }
          now packet.header.originator neighbor tc packet.header.validity
        exact ⟨h.neighbors, h.topology, h.groups, rfl, rfl, rfl, rfl⟩

theorem tablesNoted_sweep (node : Node) (now : Nat) : TablesNoted now node (node.sweep now).2 :=
  ⟨Neighborhood.noted_sweep node.neighbors now, Topology.noted_sweep node.topology now,
    Groups.noted_retain _ _, rfl, rfl, rfl, rfl⟩

theorem relay_eq (node : Node) (message : DataMessage) :
    ∃ registry, (node.relay message).2
      = { node with toInformationBase := { node.toInformationBase with registry } } :=
  ⟨_, rfl⟩

/-- All operations but two leave derived state alone and change the tables in noted ways. -/
theorem tablesNoted_perform (node : Node) (now : Nat) (op : Operation) :
    TablesNoted now node (node.perform now op) ∨ op = .recompute ∨ op = .tickGrace := by
  have hrelay : ∀ message, TablesNoted now node (node.relay message).2 := by
    intro message
    obtain ⟨registry, hrelay⟩ := relay_eq node message
    rw [hrelay]
    exact .of_eq rfl rfl rfl rfl rfl rfl rfl
  cases op with
  | receiveControl bytes neighbor =>
    left
    unfold perform receiveControl
    dsimp only
    split
    · exact tablesNoted_receivePacket node now _ neighbor
    · exact .of_eq rfl rfl rfl rfl rfl rfl rfl
  | receivePacket packet neighbor => exact .inl (tablesNoted_receivePacket node now packet neighbor)
  | makeHello => exact .inl (.of_eq rfl rfl rfl rfl rfl rfl rfl)
  | makeTc => exact .inl (.of_eq rfl rfl rfl rfl rfl rfl rfl)
  | sweep => exact .inl (tablesNoted_sweep node now)
  | recompute => exact .inr (.inl rfl)
  | tickGrace => exact .inr (.inr rfl)
  | join group =>
    exact .inl ⟨.refl now _, .refl now _, Groups.noted_register _ _ _, rfl, rfl, rfl, rfl⟩
  | leave group =>
    exact .inl ⟨.refl now _, .refl now _, Groups.noted_unregister _ _ _, rfl, rfl, rfl, rfl⟩
  | send group payload => exact .inl (.of_eq rfl rfl rfl rfl rfl rfl rfl)
  | receiveData bytes =>
    left
    unfold perform
    dsimp only
    split
    · exact hrelay _
    · exact .of_eq rfl rfl rfl rfl rfl rfl rfl
  | receiveMessage message => exact .inl (hrelay message)
  | registerAll view => exact .inl (.of_eq rfl rfl rfl rfl rfl rfl rfl)
  | setBandwidth participant bandwidth => exact .inl (.of_eq rfl rfl rfl rfl rfl rfl rfl)
  | advance ms => exact .inl (.of_eq rfl rfl rfl rfl rfl rfl rfl)

end Node

end Meshcast
