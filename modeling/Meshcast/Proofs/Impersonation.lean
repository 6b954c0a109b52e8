import Meshcast.Proofs.Copies
import Meshcast.Proofs.LinkSensing
import Meshcast.Proofs.RelaySelection
import Meshcast.Proofs.Routing
import Meshcast.Proofs.Supersession

/-!
# Meshcast — nobody speaks for the node itself

Any host may say anything about anybody, and may claim to be anybody. Still, whatever comes in, a
node does not come to hold others' words about itself. The check for that is not in one place:
packets that are said to come from the node are dropped at the door, listings of the node in a
greeting are set apart, arcs and routes back to the node are left out, selectors and relays are
taken from among the neighbors, and a sweep spares the groups of the node.

* **`Node.Foreign`** — nothing that a node holds about others is about itself.
* **`Node.Foreign.perform`** — every operation keeps it so, at a node that finds itself under its
  address.
* **`Moment.RoutedLast`**, **`Moment.routes_run`** — the routes are those computed last.
* **`Node.joined_perform`**, **`Moment.isMember_run`** — the node alone decides which groups it is
  in.
* **`speaks_for_itself`** — the result.
-/

namespace Meshcast

/-! ## What is held about others -/

namespace Neighborhood

/-- No entry and no published arc is about the node itself. -/
structure Foreign (n : Neighborhood) : Prop where
  entry : ∀ id slot, n.table.slots[id]? = some slot → id ≠ n.self ∧ n.self ∉ slot.value.twoHop
  arc : ∀ arc ∈ n.twoHopArcs, arc.source ≠ n.self ∧ arc.target ≠ n.self

theorem Foreign.not_mem_symmetric {n : Neighborhood} (h : n.Foreign) (now : Nat) :
    n.self ∉ n.symmetric now := by
  rw [mem_symmetric]
  rintro ⟨entry, hentry, -⟩
  obtain ⟨slot, hslot, -⟩ := ExpiringTable.get?_eq_some_iff.1 hentry
  exact (h.entry n.self slot hslot).1 rfl

/-- What is published from entries about others is about others. -/
theorem Foreign.commit {n : Neighborhood} (h : n.Foreign) {tx : Transaction NodeId Neighbor}
    (hentry : ∀ id slot, (n.commit tx).table.slots[id]? = some slot →
      id ≠ n.self ∧ n.self ∉ slot.value.twoHop) : (n.commit tx).Foreign := by
  rw [table_commit] at hentry
  unfold Neighborhood.commit Transaction.report
  cases tx.changed with
  | false => exact ⟨hentry, h.arc⟩
  | true =>
    refine ⟨hentry, fun arc harc => ?_⟩
    obtain ⟨neighbor, hneighbor, -, -, htarget, -⟩ := mem_arcsOfAll.1 harc
    rw [Transaction.live, ExpiringTable.getElem?_live] at hneighbor
    obtain ⟨slot, hslot, -⟩ := ExpiringTable.get?_eq_some_iff.1 hneighbor
    exact ⟨(hentry arc.source slot hslot).1, htarget⟩

theorem Foreign.sweep {n : Neighborhood} (h : n.Foreign) (now : Nat) : (n.sweep now).2.Foreign := by
  refine h.commit fun id slot hslot => ?_
  rw [table_commit] at hslot
  have hfilter : (n.table.slots.filter fun _ slot => slot.isLive now)[id]? = some slot := hslot
  rw [Std.ExtTreeMap.getElem?_filter', Option.filter_eq_some_iff] at hfilter
  exact h.entry id slot hfilter.1

theorem Foreign.markRelays {n : Neighborhood} (h : n.Foreign) (now : Nat) (relays : NodeSet) :
    (n.markRelays now relays).2.Foreign := by
  refine ⟨fun id slot hslot => ?_, h.arc⟩
  simp only [Neighborhood.markRelays, Std.ExtTreeMap.getElem?_map, Option.map_eq_some_iff] at hslot
  obtain ⟨old, hold, rfl⟩ := hslot
  obtain ⟨hid, htwoHop⟩ := h.entry id old hold
  refine ⟨hid, ?_⟩
  split <;> exact htwoHop

end Neighborhood

/-- What a greeting says about its receiver is not taken for a report of a two-hop node. -/
theorem HelloReport.self_not_mem_reported (self sender : NodeId) (codes : List LinkCode)
    (nodes : List NodeId) : self ∉ (ofListings self sender codes nodes).reported := by
  unfold ofListings
  refine List.foldlRecOn (motive := fun report : HelloReport => self ∉ report.reported) _ _
    Std.ExtTreeSet.not_mem_empty ?_
  rintro report h ⟨code, node⟩ -
  show self ∉ (report.add self sender code node).reported
  unfold add
  split
  · exact h
  · rename_i hself
    split
    · exact h
    · split
      · exact h
      · rw [mem_insert]
        exact not_or.2 ⟨Ne.symm hself, h⟩

theorem Groups.joined_retain (g : Groups) {keep : NodeSet} {id : NodeId} (h : id ∈ keep) :
    (g.retain keep).2.joined id = g.joined id := by
  show (g.rows.filter fun node _ => keep.contains node)[id]?.getD ∅ = g.rows[id]?.getD ∅
  rw [Std.ExtTreeMap.getElem?_filter']
  cases g.rows[id]? with
  | none => rfl
  | some groups => simp [Option.filter, Std.ExtTreeSet.contains_iff_mem.2 h]

namespace InformationBase

/-- Nothing that was learned about neighbors, selectors and announced links is about the node
itself. -/
structure Foreign (base : InformationBase) : Prop where
  neighbors : base.neighbors.Foreign
  selector : base.self ∉ base.selectors.members
  link : ∀ arc ∈ base.topology.table.slots, arc.source ≠ base.self

theorem foreign_recordNeighbor (base : InformationBase) (h : base.neighbors.Foreign) (now : Nat)
    {sender : NodeId} {report : HelloReport} (lifetime : Nat) (hsender : sender ≠ base.self)
    (hreport : base.self ∉ report.reported) :
    (base.recordNeighbor now sender report lifetime).2.neighbors.Foreign := by
  refine h.commit fun id slot hslot => ?_
  have hrecorded : (base.recordNeighbor now sender report lifetime).2.neighbors.table.slots[id]? =
    some slot := hslot
  rw [slots_recordNeighbor, Std.ExtTreeMap.getElem?_insert] at hrecorded
  split at hrecorded
  · rename_i heq
    cases Std.LawfulEqOrd.eq_of_compare heq
    cases hrecorded
    exact ⟨hsender, hreport⟩
  · exact h.entry id slot hrecorded

theorem Foreign.applyHello {base : InformationBase} (h : base.Foreign) (now : Nat)
    (source : Address) (hello : Hello) (validity : ValidityTime) :
    (base.applyHello now source hello validity).2.Foreign := by
  unfold InformationBase.applyHello
  dsimp only [intern]
  split
  · exact ⟨h.neighbors, h.selector, h.link⟩
  · rename_i hsender
    let sender := (base.registry.intern source).1
    let listed := (base.registry.intern source).2.internAll hello.listings.unzip.2
    let report := HelloReport.ofListings base.self sender hello.listings.unzip.1 listed.1
    let recorded :=
      ({ base with registry := listed.2 }.recordNeighbor now sender report validity.millis).2
    have hneighbors : recorded.neighbors.Foreign :=
      foreign_recordNeighbor { base with registry := listed.2 } h.neighbors now
        validity.millis hsender (HelloReport.self_not_mem_reported _ _ _ _)
    have hself : recorded.self = base.self := Neighborhood.self_commit _ _
    refine ⟨hneighbors, ?_, ?_⟩
    · -- only symmetric neighbors stay selectors
      intro hselector
      have hmem : recorded.self ∈ (recorded.recordSelector now sender
        report.choosesReceiver).selectors.members := hselector
      rw [mem_selectors_recordSelector] at hmem
      exact hneighbors.not_mem_symmetric now hmem.2
    · intro arc harc
      show arc.source ≠ recorded.self
      rw [hself]
      exact h.link arc harc

end InformationBase

/-! ## Operations -/

namespace Node

/-- Nothing that a node holds about others is about itself. -/
structure Foreign (node : Node) : Prop extends InformationBase.Foreign node.toInformationBase where
  relay : node.self ∉ node.relays.members
  destination : node.self ∉ node.routes

/-- A node finds itself under its address. -/
def KnowsItself (node : Node) : Prop :=
  node.registry.lookup? node.address = some node.self

theorem KnowsItself.grows {node node' : Node} (h : node.KnowsItself) (hgrows : Grows node node') :
    node'.KnowsItself := by
  unfold KnowsItself
  rw [hgrows.address_eq, hgrows.base.self_eq]
  exact hgrows.base.registry _ _ h

/-- Whatever a packet says, and whoever is said to have sent it, nothing that is learned from it is
about the node. -/
theorem Foreign.receivePacket {node : Node} (h : node.Foreign) (hself : node.KnowsItself)
    (now : Nat) (packet : Packet) (neighbor : Address) :
    (node.receivePacket now packet neighbor).2.Foreign := by
  have hgrows := node.grows_receivePacket now packet neighbor
  have hlink : ∀ arc ∈ (node.receivePacket now packet neighbor).2.topology.table.slots,
      arc.source ≠ node.self := by
    intro arc harc
    obtain ⟨slot, hslot⟩ := Option.isSome_iff_exists.1
      (Std.ExtTreeMap.isSome_getElem?_iff_mem.2 harc)
    rcases announced_of_slot hslot with hold | ⟨tc, -, horiginator, haddress, -⟩
    · exact h.link arc (Std.ExtTreeMap.isSome_getElem?_iff_mem.1 (by rw [hold]; rfl))
    · -- the originator of an announcement has another address, and so another identifier
      intro hsource
      have hknown := (Registry.lookup?_eq_some_iff _ _ _).1 (hself.grows hgrows)
      rw [hgrows.base.self_eq, ← hsource, haddress, hgrows.address_eq] at hknown
      exact horiginator (Option.some.inj hknown)
  have hacquainted : (node.acquainted packet).Foreign := ⟨h.neighbors, h.selector, h.link⟩
  have hreceived := node.received_receivePacket now packet neighbor
  generalize (node.receivePacket now packet neighbor).2 = node' at hreceived hlink hgrows
  have hsame := hgrows.base.self_eq
  rw [← hsame] at hlink
  cases hreceived with
  | own => exact h
  | repeated => exact ⟨hacquainted, h.relay, h.destination⟩
  | greeted hello =>
    have happlied := hacquainted.applyHello now neighbor hello packet.header.validity
    refine ⟨happlied, ?_, ?_⟩
    · rw [hsame]
      exact h.relay
    · rw [hsame]
      exact h.destination
  | announced tc sent base duplicates _ _ _ hhandled =>
    refine ⟨⟨hhandled.neighbors ▸ h.neighbors, ?_, hlink⟩, ?_, ?_⟩
    · rw [hsame, hhandled.selectors]
      exact h.selector
    · rw [hsame]
      exact h.relay
    · rw [hsame]
      exact h.destination

theorem Foreign.sweep {node : Node} (h : node.Foreign) (now : Nat) :
    (node.sweep now).2.Foreign := by
  have hself : (node.sweep now).2.self = node.self := Neighborhood.self_commit _ _
  refine ⟨⟨h.neighbors.sweep now, ?_, ?_⟩, ?_, ?_⟩
  · rw [selectors_sweep, mem_prune, hself]
    exact fun hmem => h.selector hmem.1
  · intro arc harc
    rw [hself]
    exact h.link arc (Std.ExtTreeMap.mem_of_mem_filter harc)
  · rw [hself]
    exact h.relay
  · rw [hself]
    exact h.destination

/-- The relays are chosen among the symmetric neighbors. -/
theorem Foreign.updateRelays {node : Node} (h : node.Foreign) (now : Nat) :
    (node.updateRelays now).Foreign := by
  unfold Node.updateRelays
  dsimp only
  split
  · have hneighbors : node.neighbors.takeRelaysDirty.2.Foreign :=
      ⟨h.neighbors.entry, h.neighbors.arc⟩
    refine ⟨⟨hneighbors.markRelays now _, h.selector, h.link⟩, ?_, h.destination⟩
    intro hrelay
    rw [FlaggedSet.members_replace] at hrelay
    -- whoever is chosen covers somebody, and only neighbors do
    obtain ⟨target, hstrict⟩ := exists_strictArc_of_mem_selectRelays hrelay
    exact hneighbors.not_mem_symmetric now (RelaySelection.mem_strictArcs.1 hstrict).2.1
  · exact h

theorem Foreign.updateRoutes {node : Node} (h : node.Foreign) (now : Nat) :
    (node.updateRoutes now).Foreign := by
  refine ⟨⟨h.neighbors, h.selector, h.link⟩, h.relay, ?_⟩
  intro hdestination
  obtain ⟨route, hroute⟩ := Option.isSome_iff_exists.1
    (Std.ExtTreeMap.isSome_getElem?_iff_mem.2 hdestination)
  exact h.neighbors.not_mem_symmetric now (way_of_route hroute).1.start_mem

theorem Foreign.recompute {node : Node} (h : node.Foreign) (now : Nat) :
    (node.recompute now).2.Foreign := by
  have hrelays := h.updateRelays now
  have hlowered : Foreign { node.updateRelays now with
      toInformationBase := (node.updateRelays now).lowerFlags } :=
    ⟨⟨⟨hrelays.neighbors.entry, hrelays.neighbors.arc⟩, hrelays.selector, hrelays.link⟩,
      hrelays.relay, hrelays.destination⟩
  unfold Node.recompute
  dsimp only
  split
  · have hroutes := hlowered.updateRoutes now
    exact ⟨hroutes.toForeign, hroutes.relay, hroutes.destination⟩
  · split
    · exact ⟨hlowered.toForeign, hlowered.relay, hlowered.destination⟩
    · exact hlowered

theorem Foreign.perform {node : Node} (h : node.Foreign) (hself : node.KnowsItself) (now : Nat)
    (op : Operation) : (node.perform now op).Foreign := by
  have same {node' : Node} (hneighbors : node'.neighbors = node.neighbors)
      (hselectors : node'.selectors.members = node.selectors.members)
      (htopology : node'.topology = node.topology) (hrelays : node'.relays = node.relays)
      (hroutes : node'.routes = node.routes) : node'.Foreign := by
    have hself : node'.self = node.self := congrArg Neighborhood.self hneighbors
    refine ⟨⟨hneighbors ▸ h.neighbors, ?_, ?_⟩, ?_, ?_⟩
    · rw [hselectors, hself]
      exact h.selector
    · rw [htopology, hself]
      exact h.link
    · rw [hrelays, hself]
      exact h.relay
    · rw [hroutes, hself]
      exact h.destination
  cases op with
  | receiveControl bytes neighbor =>
    unfold Node.perform receiveControl
    dsimp only
    split
    · exact h.receivePacket hself now _ neighbor
    · exact h
  | receivePacket packet neighbor => exact h.receivePacket hself now packet neighbor
  | sweep => exact h.sweep now
  | recompute => exact h.recompute now
  | receiveData bytes =>
    unfold Node.perform
    dsimp only
    split
    · exact same rfl rfl rfl rfl rfl
    · exact h
  | _ => exact same rfl rfl rfl rfl rfl

/-! ## When routes are computed -/

/-- Whether computing afresh what is due computes the routes. -/
def routesDue (node : Node) (now : Nat) : Bool :=
  (node.updateRelays now).flags.neighbors || (node.updateRelays now).flags.topology

theorem routes_recompute (node : Node) (now : Nat) :
    (node.recompute now).2.routes =
      if node.routesDue now then
        computeRoutes node.self (node.neighbors.symmetric now) node.neighbors.twoHopArcs
          (node.topology.arcs now)
      else node.routes := by
  have hrelays : (node.updateRelays now).self = node.self
      ∧ (node.updateRelays now).neighbors.twoHopArcs = node.neighbors.twoHopArcs
      ∧ (node.updateRelays now).topology = node.topology
      ∧ (node.updateRelays now).routes = node.routes := by
    unfold updateRelays
    dsimp only
    split <;> exact ⟨rfl, rfl, rfl, rfl⟩
  obtain ⟨hself, harcs, htopology, hroutes⟩ := hrelays
  rw [← node.symmetric_updateRelays now, ← hself, ← harcs, ← htopology, ← hroutes]
  unfold recompute routesDue
  dsimp only
  split
  · rfl
  · split <;> rfl

/-- Only computing afresh what is due touches the routes. -/
theorem routes_perform {node : Node} {now : Nat} {op : Operation} (h : op ≠ .recompute) :
    (node.perform now op).routes = node.routes := by
  rcases node.tablesNoted_perform now op with hnoted | rfl | rfl
  · exact hnoted.routes
  · exact absurd rfl h
  · rfl

/-! ## Which groups the node is in -/

/-- The groups a node is in after an operation. -/
def joinedAfter (groups : AddressSet) : Operation → AddressSet
  | .join group => groups.insert group
  | .leave group => groups.erase group
  | _ => groups

/-- No packet tells a node which groups it is in. -/
theorem joined_receivePacket {node : Node} (hself : node.KnowsItself) (now : Nat) (packet : Packet)
    (neighbor : Address) :
    (node.receivePacket now packet neighbor).2.groups.joined node.self =
      node.groups.joined node.self := by
  have hreceived := node.received_receivePacket now packet neighbor
  generalize (node.receivePacket now packet neighbor).2 = node' at hreceived ⊢
  cases hreceived with
  | own => rfl
  | repeated => rfl
  | greeted hello =>
    show ((node.acquainted packet).applyHello now neighbor hello
      packet.header.validity).2.groups.joined node.self = _
    rw [((node.acquainted packet).announced_applyHello now neighbor hello _).2]
    rfl
  | announced tc sent base duplicates _ horiginator _ h =>
    have hlearned := congrArg Prod.snd h.learned
    dsimp only at hlearned
    rw [hlearned]
    split
    · unfold InformationBase.learn
      dsimp only
      split
      · rfl
      · -- the originator is somebody else
        have hother : node.self ≠ (node.registry.intern packet.header.originator).1 := by
          intro heq
          have hknown : (node.registry.intern packet.header.originator).2.lookup?
              packet.header.originator = some node.self := by
            rw [Registry.lookup?_intern, if_pos rfl, heq]
          exact horiginator (Registry.lookup?_injective hknown
            (node.registry.extends_intern _ _ _ hself))
        exact Groups.joined_update_of_ne _ _ hother
    · rfl

theorem self_mem_knownNodes (node : Node) (now : Nat) : node.self ∈ node.knownNodes now :=
  Std.ExtTreeSet.mem_insert_self

/-- A sweep keeps what the node itself is in, whatever else is known of the node. -/
theorem joined_sweep (node : Node) (now : Nat) :
    (node.sweep now).2.groups.joined node.self = node.groups.joined node.self := by
  have hself : (node.sweep now).2.self = node.self := Neighborhood.self_commit _ _
  refine Groups.joined_retain node.groups ?_
  rw [← hself]
  exact self_mem_knownNodes _ now

theorem joined_perform {node : Node} (hself : node.KnowsItself) (now : Nat) (op : Operation) :
    (node.perform now op).groups.joined node.self =
      joinedAfter (node.groups.joined node.self) op := by
  cases op with
  | receiveControl bytes neighbor =>
    unfold perform receiveControl
    dsimp only
    split
    · exact joined_receivePacket hself now _ neighbor
    · rfl
  | receivePacket packet neighbor => exact joined_receivePacket hself now packet neighbor
  | sweep => exact node.joined_sweep now
  | recompute =>
    obtain ⟨-, -, -, hrows⟩ := node.recompute_frame now
    show (node.recompute now).2.groups.rows[node.self]?.getD ∅ = _
    rw [hrows]
    rfl
  | join group => exact Groups.joined_register _ _ _
  | leave group => exact Groups.joined_unregister _ _ _
  | receiveData bytes =>
    unfold perform
    dsimp only
    split <;> rfl
  | _ => rfl

end Node

/-! ## Runs -/

namespace Moment

theorem knowsItself_run (address : Address) (config : Config) (since : Nat)
    (ops : List Operation) : ((start address config since).run ops).node.KnowsItself := by
  unfold Node.KnowsItself
  rw [Node.address_run rfl]
  exact Node.lookup?_address_run rfl

theorem foreign_run (address : Address) (config : Config) (since : Nat) (ops : List Operation) :
    ((start address config since).run ops).node.Foreign := by
  induction ops using List.reverseRecOn with
  | nil =>
    refine ⟨⟨⟨?_, ?_⟩, ?_, ?_⟩, ?_, ?_⟩
    · intro id slot hslot
      have hnone : (∅ : Std.ExtTreeMap NodeId (Slot Neighbor))[id]? = some slot := hslot
      rw [Std.ExtTreeMap.getElem?_empty] at hnone
      nomatch hnone
    · exact fun arc harc => absurd harc Std.ExtTreeSet.not_mem_empty
    · exact Std.ExtTreeSet.not_mem_empty
    · exact fun arc harc => absurd harc Std.ExtTreeMap.not_mem_empty
    · exact Std.ExtTreeSet.not_mem_empty
    · exact Std.ExtTreeMap.not_mem_empty
  | append_singleton ops op ih =>
    rw [run_concat]
    exact ih.perform (knowsItself_run address config since ops) _ op

/-! ### The routes -/

/-- The last time in a run that the routes were computed: after `before`, and before `after`. -/
structure RoutedLast (m : Moment) (ops before after : List Operation) : Prop where
  ops_eq : ops = before ++ .recompute :: after
  due : (m.run before).node.routesDue (m.run before).now = true
  latest : ∀ between rest, after = between ++ .recompute :: rest →
    (m.run (before ++ .recompute :: between)).node.routesDue
      (m.run (before ++ .recompute :: between)).now = false

theorem RoutedLast.concat {m : Moment} {ops before after : List Operation} {op : Operation}
    (h : RoutedLast m ops before after)
    (hop : op = .recompute → (m.run ops).node.routesDue (m.run ops).now = false) :
    RoutedLast m (ops ++ [op]) before (after ++ [op]) where
  ops_eq := by
    rw [h.ops_eq, List.append_assoc, List.cons_append]
  due := h.due
  latest between rest heq := by
    -- what was computed later was computed in the last operation or before it
    rcases split_concat heq with ⟨rfl, hlast, -⟩ | ⟨rest, -, hbefore⟩
    · rw [← h.ops_eq]
      exact hop hlast
    · exact h.latest between rest hbefore

/-- The routes of a node are those computed last, or the ones it started with. -/
theorem routes_run (m : Moment) (ops : List Operation) :
    (m.run ops).node.routes = m.node.routes
      ∨ ∃ before after, RoutedLast m ops before after
        ∧ (m.run ops).node.routes = (m.run (before ++ [.recompute])).node.routes := by
  induction ops using List.reverseRecOn with
  | nil => exact .inl rfl
  | append_singleton ops op ih =>
    by_cases hdue : op = .recompute ∧ (m.run ops).node.routesDue (m.run ops).now = true
    · -- the routes have just been computed
      obtain ⟨rfl, hdue⟩ := hdue
      refine .inr ⟨ops, [], ⟨rfl, hdue, ?_⟩, rfl⟩
      intro between rest heq
      exact absurd heq (by simp)
    · have hkeeps : op = .recompute → (m.run ops).node.routesDue (m.run ops).now = false :=
        fun hop => by simpa using fun hdue' => hdue ⟨hop, hdue'⟩
      have hroutes : (m.run (ops ++ [op])).node.routes = (m.run ops).node.routes := by
        rw [run_concat]
        by_cases hop : op = .recompute
        · subst hop
          show ((m.run ops).node.recompute (m.run ops).now).2.routes = _
          rw [Node.routes_recompute, hkeeps rfl, if_neg Bool.false_ne_true]
        · exact Node.routes_perform hop
      rw [hroutes]
      exact ih.imp_right fun ⟨before, after, hlast, heq⟩ =>
        ⟨before, after ++ [op], hlast.concat hkeeps, heq⟩

theorem nextHop_of_routedLast {m : Moment} {ops before after : List Operation}
    (h : RoutedLast m ops before after) {destination : NodeId} {route : Route}
    (hroute : (m.run (before ++ [.recompute])).node.routes[destination]? = some route) :
    route.nextHop ∈ (m.run before).node.neighbors.symmetric (m.run before).now := by
  rw [run_concat] at hroute
  have hroutes : ((m.run before).step .recompute).node.routes = _ :=
    (m.run before).node.routes_recompute (m.run before).now
  rw [hroutes, h.due, if_pos rfl] at hroute
  exact (way_of_route hroute).1.via_mem

/-! ### The groups -/

/-- The latest of a node's decisions about a group was to join it. -/
def LatestJoins (group : Address) (ops : List Operation) : Prop :=
  ∃ before after, ops = before ++ .join group :: after ∧ .leave group ∉ after

theorem latestJoins_concat {group : Address} {ops : List Operation} {op : Operation} :
    LatestJoins group (ops ++ [op]) ↔
      op = .join group ∨ op ≠ .leave group ∧ LatestJoins group ops := by
  constructor
  · rintro ⟨before, after, heq, hafter⟩
    rcases split_concat heq with ⟨-, hlast, -⟩ | ⟨after, rfl, hops⟩
    · exact .inl hlast
    · rw [List.mem_append, List.mem_singleton, not_or] at hafter
      exact .inr ⟨Ne.symm hafter.2, before, after, hops, hafter.1⟩
  · rintro (rfl | ⟨hop, before, after, rfl, hafter⟩)
    · exact ⟨ops, [], rfl, List.not_mem_nil⟩
    · refine ⟨before, after ++ [op], by rw [List.append_assoc, List.cons_append], ?_⟩
      rw [List.mem_append, List.mem_singleton, not_or]
      exact ⟨hafter, Ne.symm hop⟩

theorem mem_joinedAfter {groups : AddressSet} {group : Address} {op : Operation} :
    group ∈ Node.joinedAfter groups op ↔
      op = .join group ∨ op ≠ .leave group ∧ group ∈ groups := by
  cases op with
  | join other =>
    rw [Node.joinedAfter, Std.ExtTreeSet.mem_insert, Std.compare_eq_iff_eq, Operation.join.injEq]
    simp only [ne_eq, reduceCtorEq, not_false_eq_true, true_and]
  | leave other =>
    rw [Node.joinedAfter, Std.ExtTreeSet.mem_erase, ne_eq, ne_eq, Std.compare_eq_iff_eq,
      Operation.leave.injEq]
    simp only [reduceCtorEq, false_or]
  | _ => simp [Node.joinedAfter]

theorem isMember_run (address : Address) (config : Config) (since : Nat) (ops : List Operation)
    (group : Address) :
    ((start address config since).run ops).node.groups.isMember
        ((start address config since).run ops).node.self group = true ↔
      LatestJoins group ops := by
  unfold Groups.isMember
  rw [Std.ExtTreeSet.contains_iff_mem]
  induction ops using List.reverseRecOn with
  | nil =>
    constructor
    · exact fun hmem => absurd hmem Std.ExtTreeSet.not_mem_empty
    · rintro ⟨before, after, heq, -⟩
      exact absurd heq (by simp)
  | append_singleton ops op ih =>
    have hself := knowsItself_run address config since ops
    rw [run_concat, latestJoins_concat, ← ih, ← mem_joinedAfter]
    generalize (start address config since).run ops = m at hself ⊢
    show group ∈ (m.node.perform m.now op).groups.joined (m.node.perform m.now op).self ↔ _
    rw [(m.node.grows_perform m.now op).base.self_eq, Node.joined_perform hself]

end Moment

/-- Whatever comes in, and whoever is said to have sent it, a node holds nothing about itself but
what it decided: it is not its own neighbor, nor anything else that others say others are; its
routes start with those that were symmetric neighbors when the routes were computed; and it is in
the groups that it joined last. -/
theorem speaks_for_itself (address : Address) (config : Config) (since : Nat)
    (ops : List Operation) :
    let first := Moment.start address config since
    let node := (first.run ops).node
    node.registry.lookup? address = some node.self
      ∧ node.Foreign
      ∧ (∀ (destination : NodeId) (route : Route), node.routes[destination]? = some route →
        ∃ before after, first.RoutedLast ops before after
          ∧ node.routes = (first.run (before ++ [.recompute])).node.routes
          ∧ route.nextHop ∈ (first.run before).node.neighbors.symmetric (first.run before).now)
      ∧ ∀ group, node.groups.isMember node.self group = true ↔ Moment.LatestJoins group ops := by
  intro first node
  refine ⟨Node.lookup?_address_run rfl, Moment.foreign_run address config since ops, ?_,
    Moment.isMember_run address config since ops⟩
  intro destination route hroute
  rcases first.routes_run ops with hnone | ⟨before, after, hlast, hroutes⟩
  · -- a node starts without routes
    have hempty : node.routes = ∅ := hnone
    rw [hempty, Std.ExtTreeMap.getElem?_empty] at hroute
    nomatch hroute
  · have hroute' : (first.run (before ++ [.recompute])).node.routes[destination]? = some route := by
      rw [← hroutes]
      exact hroute
    exact ⟨before, after, hlast, hroutes, Moment.nextHop_of_routedLast hlast hroute'⟩

/-- The first host hears the second one and joins a group. Then there comes an announcement without
that group in its own name, and one of the ninth host that it is said to have sent itself. -/
def forgery : List Operation :=
  [.receivePacket Node.greetingOfSecond (Node.hostAddress 2), .join ⟨0xe0000001⟩,
    .receivePacket
      { header := { Node.packetOfNinth.header with originator := Node.hostAddress 1 }
        body := .tc { ansn := ⟨1⟩, advertised := .ofList [Node.hostAddress 8] } }
      (Node.hostAddress 2),
    .receivePacket Node.packetOfNinth (Node.hostAddress 1), .recompute]

/-- The host stays in its group, and its only route is the one to its neighbor. -/
theorem speaks_for_itself_forged :
    let first := Moment.start (Node.hostAddress 1) {} 0
    let node := (first.run forgery).node
    node.Foreign ∧ node.routes.toList = [(⟨1⟩, ⟨⟨1⟩, 1⟩)]
      ∧ (∃ before after, first.RoutedLast forgery before after
        ∧ (⟨1⟩ : NodeId) ∈ (first.run before).node.neighbors.symmetric (first.run before).now)
      ∧ node.groups.isMember node.self ⟨0xe0000001⟩ = true
      ∧ Moment.LatestJoins ⟨0xe0000001⟩ forgery := by
  intro first node
  obtain ⟨-, hforeign, hroutes, hgroups⟩ := speaks_for_itself (Node.hostAddress 1) {} 0 forgery
  have hroute : node.routes[(⟨1⟩ : NodeId)]? = some ⟨⟨1⟩, 1⟩ := by decide +kernel
  have hmember : node.groups.isMember node.self ⟨0xe0000001⟩ = true := by decide +kernel
  obtain ⟨before, after, hlast, -, hsymmetric⟩ := hroutes _ _ hroute
  exact ⟨hforeign, by decide +kernel, ⟨before, after, hlast, hsymmetric⟩, hmember,
    (hgroups _).1 hmember⟩

end Meshcast
