import Meshcast.Proofs.DerivedState

/-!
# Meshcast — maintenance brings derived state up to date

A round of maintenance is a sweep followed by a computation at the same reading of the clock. This
module says what the computation does to the invariant of `DerivedState` and concludes that no run
of a node ends in a state from which a round would leave derived state behind the tables.

* **`getElem?_updateOverlays`** — which overlays there are after they were brought up to date.
* **`upToDate_recompute`**, **`flags_recompute`** — computing afresh preserves the invariant and
  lowers all flags.
* **`upToDate_perform`** — so every operation preserves the invariant.
* **`derived_after_maintenance`** — after maintenance all derived state is that of the live tables.
-/

namespace Meshcast

theorem getElem?_ofList_filterMap {κ ν : Type} [Ord κ] [Std.TransOrd κ] [Std.LawfulEqOrd κ]
    [DecidableEq κ] {keys : List κ} (hdistinct : keys.Pairwise fun a b => ¬compare a b = .eq)
    (value? : κ → Option ν) (key : κ) :
    (Std.ExtTreeMap.ofList (keys.filterMap fun key => (value? key).map (key, ·)))[key]? =
      if key ∈ keys then value? key else none := by
  have hentry : ∀ value, (key, value) ∈ (keys.filterMap fun key => (value? key).map (key, ·)) ↔
      key ∈ keys ∧ value? key = some value := by
    intro value
    rw [List.mem_filterMap]
    constructor
    · rintro ⟨other, hmem, hother⟩
      obtain ⟨_, hvalue, heq⟩ := Option.map_eq_some_iff.1 hother
      cases heq
      exact ⟨hmem, hvalue⟩
    · rintro ⟨hmem, hvalue⟩
      exact ⟨key, hmem, by rw [hvalue, Option.map_some]⟩
  cases hfound : (if key ∈ keys then value? key else none) with
  | some value =>
    have hvalue : key ∈ keys ∧ value? key = some value := by
      split at hfound
      · exact ⟨‹_›, hfound⟩
      · nomatch hfound
    refine Std.ExtTreeMap.getElem?_ofList_of_mem Std.ReflCmp.compare_self ?_
      ((hentry value).2 hvalue)
    -- each key occurs once
    refine hdistinct.filterMap _ ?_
    intro first second hdifferent a hfirst b hsecond
    obtain ⟨_, _, rfl⟩ := Option.map_eq_some_iff.1 hfirst
    obtain ⟨_, _, rfl⟩ := Option.map_eq_some_iff.1 hsecond
    exact hdifferent
  | none =>
    apply Std.ExtTreeMap.getElem?_ofList_of_contains_eq_false
    rw [← Bool.not_eq_true, List.contains_iff_mem, List.mem_map]
    rintro ⟨⟨_, value⟩, hmem, rfl⟩
    obtain ⟨hkey, hvalue⟩ := (hentry value).1 hmem
    rw [if_pos hkey, hvalue] at hfound
    nomatch hfound

theorem FlaggedSet.members_replace (s : FlaggedSet) (members : NodeSet) :
    (s.replace members).2.members = members := by
  unfold replace
  split
  · assumption
  · rfl

namespace Node

/-! ## The relays -/

/-- Whether the relays are due or not, afterwards they are current and no longer due. -/
theorem upToDate_updateRelays {node : Node} {now : Nat} (h : node.UpToDate now) :
    (node.updateRelays now).UpToDate now
      ∧ (node.updateRelays now).neighbors.relaysDirty = false := by
  unfold updateRelays
  dsimp only [Neighborhood.takeRelaysDirty]
  cases hdue : node.neighbors.relaysDirty with
  | false =>
    rw [if_neg Bool.false_ne_true]
    exact ⟨h, hdue⟩
  | true =>
    rw [if_pos rfl]
    refine ⟨?_, rfl⟩
    -- lowering the flag changes nothing that is looked up
    let n : Neighborhood := { node.neighbors with relaysDirty := false }
    let relays := selectRelays node.self (n.symmetric now) n.twoHopArcs
    have hsymmetric : (n.markRelays now relays).2.symmetric now = node.neighbors.symmetric now :=
      Neighborhood.symmetric_markRelays n now relays
    have hsettled : (n.markRelays now relays).2.table.Settled now →
        node.neighbors.table.Settled now :=
      Neighborhood.settled_markRelays.1
    have hunchanged : (n.markRelays now relays).2.changed = false →
        node.neighbors.changed = false := by
      intro hflag
      exact (Bool.or_eq_false_iff.1 hflag).1
    refine ⟨h.owned, ?_, ?_, ?_, ?_⟩
    · intro hs
      show n.twoHopArcs =
        Neighborhood.arcsOfAll node.self ((n.markRelays now relays).2.table.live now)
      rw [Neighborhood.arcsOfAll_markRelays]
      exact h.arcs (hsettled hs)
    · intro _ _
      constructor
      · show (node.relays.replace relays).2.members
          = selectRelays node.self ((n.markRelays now relays).2.symmetric now) n.twoHopArcs
        rw [FlaggedSet.members_replace, hsymmetric]
        rfl
      · intro id entry hentry hentrySymmetric
        show entry.status = .relay ↔ id ∈ (node.relays.replace relays).2.members
        rw [FlaggedSet.members_replace]
        exact Neighborhood.relay_iff_of_get?_markRelays hentry hentrySymmetric
    · intro hs ht hflag htopology
      have hroutes := h.routes (hsettled hs) ht (hunchanged hflag) htopology
      unfold RoutesCurrent
      show node.routes
          = computeRoutes node.self ((n.markRelays now relays).2.symmetric now)
              node.neighbors.twoHopArcs (node.topology.arcs now)
        ∧ node.graph
          = knownGraph node.self ((n.markRelays now relays).2.symmetric now)
              node.neighbors.twoHopArcs (node.topology.arcs now)
      rw [hsymmetric]
      exact hroutes
    · intro hflag htopology hgroups
      exact h.overlays (hunchanged hflag) htopology hgroups

/-! ## The overlays -/

/-- The overlay that a group is to have: none if it has no use and the node is outside. -/
def overlayFor? (node : Node) (group : Address) : Option Overlay :=
  if (node.updatedOverlay group).isIdle && !node.groups.isMember node.self group then none
  else some (node.updatedOverlay group)

/-- Once overlays are brought up to date, a group has the one it is to have if it has members or had
an overlay. -/
theorem getElem?_updateOverlays (node : Node) (group : Address) :
    node.updateOverlays.overlays[group]? =
      if group ∈ node.groups.all ∨ group ∈ node.overlays then node.overlayFor? group
      else none := by
  let groups := node.groups.all.insertMany node.overlays.keys
  have hoverlays : node.updateOverlays.overlays
      = .ofList (groups.toList.filterMap fun group => (node.overlayFor? group).map (group, ·)) := by
    unfold updateOverlays
    dsimp only
    congr 2
    funext group
    unfold overlayFor?
    split <;> rfl
  have hgroups : group ∈ groups.toList ↔ group ∈ node.groups.all ∨ group ∈ node.overlays := by
    rw [Std.ExtTreeSet.mem_toList, Std.ExtTreeSet.mem_insertMany_list, List.contains_iff_mem,
      Std.ExtTreeMap.mem_keys]
  rw [hoverlays, getElem?_ofList_filterMap Std.ExtTreeSet.distinct_toList]
  simp only [hgroups]

theorem eq_updatedOverlay {node : Node} {group : Address} {overlay : Overlay}
    (h : node.updateOverlays.overlays[group]? = some overlay) :
    overlay = node.updatedOverlay group := by
  rw [getElem?_updateOverlays] at h
  unfold overlayFor? at h
  split at h
  · split at h
    · nomatch h
    · exact (Option.some.inj h).symm
  · nomatch h

theorem self_updatedOverlay {node : Node} {group : Address}
    (h : ∀ overlay, node.overlays[group]? = some overlay → overlay.self = node.self) :
    (node.updatedOverlay group).self = node.self := by
  show (node.overlays[group]?.getD _).self = node.self
  cases hoverlay : node.overlays[group]? with
  | none => rfl
  | some overlay => exact h overlay hoverlay

theorem overlaysCurrent_updateOverlays {node : Node}
    (h : ∀ (group : Address) (overlay : Overlay), node.overlays[group]? = some overlay →
      overlay.self = node.self) : node.updateOverlays.OverlaysCurrent := by
  have htree : ∀ group, (node.updatedOverlay group).tree
      = Overlay.treeOver node.self (groupGraph node.graph node.groups node.self group) := by
    intro group
    have hself := self_updatedOverlay (h group)
    show Overlay.treeOver (node.overlays[group]?.getD _).self _ = Overlay.treeOver node.self _
    rw [show (node.overlays[group]?.getD _).self = node.self from hself]
  constructor
  · intro group overlay hoverlay
    rw [eq_updatedOverlay hoverlay]
    exact ⟨rfl, htree group⟩
  · intro group hgroup hnone
    rw [getElem?_updateOverlays, if_pos (.inl hgroup)] at hnone
    unfold overlayFor? at hnone
    split at hnone
    · rename_i hidle
      rw [Bool.and_eq_true, Bool.not_eq_true'] at hidle
      obtain ⟨hidle, hmember⟩ := hidle
      refine ⟨hmember, ?_⟩
      show (Overlay.treeOver node.self (groupGraph node.graph node.groups node.self group)).size ≤ 1
      rw [← htree group]
      exact of_decide_eq_true (Bool.and_eq_true_iff.1 hidle).1
    · nomatch hnone

/-! ## Computing afresh -/

theorem flags_recompute (node : Node) (now : Nat) :
    (node.recompute now).2.flags = ⟨false, false, false, false⟩ := by
  unfold recompute
  dsimp only
  split
  · rfl
  · split <;> rfl

theorem settled_recompute {node : Node} {now : Nat} :
    (node.neighbors.table.Settled now → (node.recompute now).2.neighbors.table.Settled now)
      ∧ (node.topology.table.Settled now → (node.recompute now).2.topology.table.Settled now) := by
  have hrelays : (node.neighbors.table.Settled now →
        (node.updateRelays now).neighbors.table.Settled now)
      ∧ (node.updateRelays now).topology = node.topology := by
    unfold updateRelays
    dsimp only
    split
    · exact ⟨Neighborhood.settled_markRelays.2, rfl⟩
    · exact ⟨id, rfl⟩
  obtain ⟨hneighbors, htopology⟩ := hrelays
  rw [← htopology]
  unfold recompute
  dsimp only
  split
  · exact ⟨hneighbors, id⟩
  · split
    · exact ⟨hneighbors, id⟩
    · exact ⟨hneighbors, id⟩

/-- Computing afresh forgets nothing. -/
theorem recompute_frame (node : Node) (now : Nat) :
    (node.recompute now).2.registry = node.registry
      ∧ (node.recompute now).2.duplicates = node.duplicates
      ∧ (node.recompute now).2.topology.table = node.topology.table
      ∧ (node.recompute now).2.groups.rows = node.groups.rows := by
  have hrelays : (node.updateRelays now).registry = node.registry
      ∧ (node.updateRelays now).duplicates = node.duplicates
      ∧ (node.updateRelays now).topology = node.topology
      ∧ (node.updateRelays now).groups = node.groups := by
    unfold updateRelays
    dsimp only
    split <;> exact ⟨rfl, rfl, rfl, rfl⟩
  obtain ⟨hregistry, hduplicates, htopology, hgroups⟩ := hrelays
  rw [← hregistry, ← hduplicates, ← htopology, ← hgroups]
  unfold recompute
  dsimp only
  split
  · exact ⟨rfl, rfl, rfl, rfl⟩
  · split <;> exact ⟨rfl, rfl, rfl, rfl⟩

/-- If nothing but the relays is computed then overlays stay, and no change of the groups was noted;
else overlays are brought up to date, with the groups as they are and maybe with another graph. -/
theorem recompute_cases (node : Node) (now : Nat) :
    ((node.recompute now).1 = false ∧ (node.recompute now).2.overlays = node.overlays
        ∧ node.groups.changed = false)
      ∨ (node.recompute now).1 = true ∧ ∃ current : Node,
          (node.recompute now).2 = current.updateOverlays
            ∧ current.overlays = node.overlays ∧ current.self = node.self
            ∧ current.config = node.config ∧ current.groups.rows = node.groups.rows := by
  have hrelays : (node.updateRelays now).overlays = node.overlays
      ∧ (node.updateRelays now).self = node.self
      ∧ (node.updateRelays now).config = node.config
      ∧ (node.updateRelays now).groups = node.groups := by
    unfold updateRelays
    dsimp only
    split <;> exact ⟨rfl, rfl, rfl, rfl⟩
  obtain ⟨hoverlays, hself, hconfig, hgroups⟩ := hrelays
  have hrows : (node.updateRelays now).groups.rows = node.groups.rows := by rw [hgroups]
  unfold recompute
  dsimp only
  split
  · exact .inr ⟨rfl, _, rfl, hoverlays, hself, hconfig, hrows⟩
  · split
    · exact .inr ⟨rfl, _, rfl, hoverlays, hself, hconfig, hrows⟩
    · rename_i hquiet
      have hchanged : (node.updateRelays now).groups.changed = false := Bool.not_eq_true _ ▸ hquiet
      exact .inl ⟨rfl, hoverlays, hgroups ▸ hchanged⟩

/-- Computing afresh leaves the selectors; the choice of relays does all that happens to the table
of neighbors. -/
theorem recompute_neighbors (node : Node) (now : Nat) :
    (node.recompute now).2.selectors = node.selectors
      ∧ (node.recompute now).2.neighbors.table = (node.updateRelays now).neighbors.table := by
  have hrelays : (node.updateRelays now).selectors = node.selectors := by
    unfold updateRelays
    dsimp only
    split <;> rfl
  rw [← hrelays]
  unfold recompute
  dsimp only
  split
  · exact ⟨rfl, rfl⟩
  · split <;> exact ⟨rfl, rfl⟩

theorem symmetric_updateRelays (node : Node) (now : Nat) :
    (node.updateRelays now).neighbors.symmetric now = node.neighbors.symmetric now := by
  unfold updateRelays
  dsimp only
  split
  · exact Neighborhood.symmetric_markRelays _ now _
  · rfl

theorem symmetric_recompute (node : Node) (now : Nat) :
    (node.recompute now).2.neighbors.symmetric now = node.neighbors.symmetric now := by
  rw [← node.symmetric_updateRelays now]
  unfold Neighborhood.symmetric Neighborhood.entries
  rw [(node.recompute_neighbors now).2]

/-- With current arcs, relays and routes, bringing the overlays up to date completes the rest. -/
theorem upToDate_updateOverlays {node : Node} {now : Nat}
    (owned : ∀ (group : Address) (overlay : Overlay), node.overlays[group]? = some overlay →
      overlay.self = node.self)
    (arcs : node.neighbors.table.Settled now → node.ArcsCurrent now)
    (relays : node.neighbors.table.Settled now → node.RelaysCurrent now)
    (routes : node.neighbors.table.Settled now → node.topology.table.Settled now →
      node.RoutesCurrent now) : node.updateOverlays.UpToDate now where
  owned group overlay h := by
    rw [eq_updatedOverlay h]
    exact self_updatedOverlay (owned group)
  arcs := arcs
  relays hs _ := relays hs
  routes hs ht _ _ := routes hs ht
  overlays _ _ _ := overlaysCurrent_updateOverlays owned

theorem routesCurrent_updateRoutes (node : Node) (now : Nat) :
    (node.updateRoutes now).RoutesCurrent now := by
  unfold RoutesCurrent updateRoutes
  dsimp only
  exact ⟨rfl, rfl⟩

/-- Computing afresh leaves nothing out of date unnoticed, although it lowers all flags. -/
theorem upToDate_recompute {node : Node} {now : Nat} (h : node.UpToDate now) :
    (node.recompute now).2.UpToDate now := by
  obtain ⟨hnoted, hdirty⟩ := upToDate_updateRelays h
  unfold recompute
  generalize node.updateRelays now = node at hnoted hdirty
  dsimp only [InformationBase.flags]
  -- lowering the flags changes nothing that is looked up
  have hrelays : node.neighbors.table.Settled now →
      { node with toInformationBase := node.lowerFlags }.RelaysCurrent now :=
    fun hs => hnoted.relays hs hdirty
  have harcs : node.neighbors.table.Settled now →
      { node with toInformationBase := node.lowerFlags }.ArcsCurrent now := hnoted.arcs
  split
  · exact upToDate_updateOverlays hnoted.owned harcs hrelays
      fun _ _ => routesCurrent_updateRoutes _ now
  · rename_i hquiet
    rw [Bool.or_eq_true, not_or, Bool.not_eq_true, Bool.not_eq_true] at hquiet
    obtain ⟨hneighbors, htopology⟩ := hquiet
    have hroutes : node.neighbors.table.Settled now → node.topology.table.Settled now →
        { node with toInformationBase := node.lowerFlags }.RoutesCurrent now :=
      fun hs ht => hnoted.routes hs ht hneighbors htopology
    split
    · exact upToDate_updateOverlays hnoted.owned harcs hrelays hroutes
    · rename_i hgroups
      rw [Bool.not_eq_true] at hgroups
      exact
        { owned := hnoted.owned
          arcs := harcs
          relays := fun hs _ => hrelays hs
          routes := fun hs ht _ _ => hroutes hs ht
          overlays := fun _ _ _ => hnoted.overlays hneighbors htopology hgroups }

/-! ## Every operation -/

theorem upToDate_start (address : Address) (config : Config) (now : Nat) :
    (Node.start address config).UpToDate now where
  owned _ _ h := by nomatch h
  arcs _ := rfl
  relays _ _ := ⟨rfl, fun _ _ h => by nomatch h⟩
  routes _ _ _ _ := by
    refine ⟨rfl, ?_⟩
    show Graph.singleton ⟨0⟩ = knownGraph ⟨0⟩ ∅ ∅ []
    decide +kernel
  overlays _ _ _ := by
    constructor
    · intro _ _ h
      nomatch h
    · intro _ h
      nomatch h

/-- Time makes nothing out of date unnoticed: if all entries are alive later, then they are now. -/
theorem UpToDate.of_le {node : Node} {now later : Nat} (h : node.UpToDate now)
    (hle : now ≤ later) : node.UpToDate later := by
  have hsame : node.neighbors.table.Settled later →
      node.neighbors.symmetric later = node.neighbors.symmetric now
        ∧ ∀ id, node.neighbors.get? later id = node.neighbors.get? now id := by
    intro hs
    constructor
    · unfold Neighborhood.symmetric Neighborhood.entries
      rw [hs.live_eq hle]
    · intro id
      show node.neighbors.table.get? later id = node.neighbors.table.get? now id
      rw [← ExpiringTable.getElem?_live, ← ExpiringTable.getElem?_live, hs.live_eq hle]
  refine ⟨h.owned, ?_, ?_, ?_, h.overlays⟩
  · intro hs
    unfold ArcsCurrent
    rw [hs.live_eq hle]
    exact h.arcs (hs.of_le hle)
  · intro hs hdirty
    obtain ⟨hsymmetric, hget⟩ := hsame hs
    unfold RelaysCurrent
    simp only [hsymmetric, hget]
    exact h.relays (hs.of_le hle) hdirty
  · intro hs ht hneighbors htopology
    obtain ⟨hsymmetric, -⟩ := hsame hs
    unfold RoutesCurrent Topology.arcs ExpiringTable.keys
    rw [hsymmetric, ht.live_eq hle]
    exact h.routes (hs.of_le hle) (ht.of_le hle) hneighbors htopology

/-- A tick is about grace periods alone, those of each overlay. -/
theorem getElem?_tickGrace (node : Node) (group : Address) :
    node.tickGrace.overlays[group]? =
      node.overlays[group]?.map fun (overlay : Overlay) => overlay.tick.2 :=
  Std.ExtTreeMap.getElem?_map

theorem upToDate_tickGrace {node : Node} {now : Nat} (h : node.UpToDate now) :
    node.tickGrace.UpToDate now := by
  refine ⟨?_, h.arcs, h.relays, h.routes, ?_⟩
  · intro group overlay hoverlay
    rw [getElem?_tickGrace, Option.map_eq_some_iff] at hoverlay
    obtain ⟨old, hold, rfl⟩ := hoverlay
    exact h.owned group old hold
  · intro hneighbors htopology hgroups
    obtain ⟨hcurrent, hcomplete⟩ := h.overlays hneighbors htopology hgroups
    constructor
    · intro group overlay hoverlay
      rw [getElem?_tickGrace, Option.map_eq_some_iff] at hoverlay
      obtain ⟨old, hold, rfl⟩ := hoverlay
      exact hcurrent group old hold
    · intro group hgroup hnone
      rw [getElem?_tickGrace, Option.map_eq_none_iff] at hnone
      exact hcomplete group hgroup hnone

theorem upToDate_perform {node : Node} {now : Nat} (h : node.UpToDate now) (op : Operation) :
    (node.perform now op).UpToDate now := by
  rcases tablesNoted_perform node now op with hnoted | rfl | rfl
  · exact h.of_tablesNoted hnoted
  · exact upToDate_recompute h
  · exact upToDate_tickGrace h

theorem upToDate_step {m : Moment} (h : m.node.UpToDate m.now) (op : Operation) :
    (m.step op).node.UpToDate (m.step op).now :=
  (upToDate_perform h op).of_le (Nat.le_add_right _ _)

/-- The invariant holds after every run. -/
theorem upToDate_run (address : Address) (config : Config) (since : Nat) (ops : List Operation) :
    let m := (Moment.start address config since).run ops
    m.node.UpToDate m.now :=
  Moment.run_induction (P := fun m => m.node.UpToDate m.now)
    (upToDate_start address config since) (fun _ op h => upToDate_step h op) ops

/-! ## After maintenance -/

/-- **No flag hides a change.** Whatever happened to a node, after a sweep and a computation at one
reading of the clock everything it derives is what its live tables say, whether or not the
computation said that it did anything. -/
theorem derived_after_maintenance (address : Address) (config : Config) (since : Nat)
    (ops : List Operation) :
    let m := (Moment.start address config since).run ops
    let node := ((m.node.sweep m.now).2.recompute m.now).2
    -- the published arcs
    (∀ n t : NodeId, ⟨n, t⟩ ∈ node.neighbors.twoHopArcs ↔
      ∃ entry, node.neighbors.get? m.now n = some entry ∧ entry.isSymmetric
        ∧ t ∈ entry.twoHop ∧ t ≠ node.self ∧ t ≠ n)
    -- the relays and their marks
    ∧ node.relays.members =
        selectRelays node.self (node.neighbors.symmetric m.now) node.neighbors.twoHopArcs
    ∧ (∀ n entry, node.neighbors.get? m.now n = some entry → entry.isSymmetric →
        (entry.status = .relay ↔ n ∈ node.relays.members))
    -- the routes and the graph
    ∧ node.routes = computeRoutes node.self (node.neighbors.symmetric m.now)
        node.neighbors.twoHopArcs (node.topology.arcs m.now)
    ∧ node.graph = knownGraph node.self (node.neighbors.symmetric m.now)
        node.neighbors.twoHopArcs (node.topology.arcs m.now)
    -- the overlays, and the groups without one
    ∧ (∀ (group : Address) (overlay : Overlay), node.overlays[group]? = some overlay →
        overlay.graph = node.graph.contract ((node.groups.members group).insert node.self)
          ∧ overlay.tree = Overlay.treeOver node.self overlay.graph)
    ∧ (∀ group ∈ node.groups.all, node.overlays[group]? = none →
        node.groups.isMember node.self group = false
          ∧ (Overlay.treeOver node.self
              (node.graph.contract ((node.groups.members group).insert node.self))).size ≤ 1) := by
  intro m node
  have hswept : (m.node.sweep m.now).2.UpToDate m.now :=
    (upToDate_run address config since ops).of_tablesNoted (tablesNoted_sweep m.node m.now)
  have hnode : node.UpToDate m.now := upToDate_recompute hswept
  -- nothing dead is left, and no flag is up
  have hs : node.neighbors.table.Settled m.now :=
    settled_recompute.1 (Neighborhood.settled_sweep m.node.neighbors m.now)
  have ht : node.topology.table.Settled m.now :=
    settled_recompute.2 (Topology.settled_sweep m.node.topology m.now)
  have hflags : node.flags = ⟨false, false, false, false⟩ := flags_recompute _ _
  have hchanged : node.neighbors.changed = false := congrArg ChangeFlags.neighbors hflags
  have hdirty : node.neighbors.relaysDirty = false := congrArg ChangeFlags.relays hflags
  have htopology : node.topology.changed = false := congrArg ChangeFlags.topology hflags
  have hgroups : node.groups.changed = false := congrArg ChangeFlags.groups hflags
  obtain ⟨hrelays, hmarks⟩ := hnode.relays hs hdirty
  obtain ⟨hroutes, hgraph⟩ := hnode.routes hs ht hchanged htopology
  obtain ⟨hoverlays, hcomplete⟩ := hnode.overlays hchanged htopology hgroups
  refine ⟨?_, hrelays, hmarks, hroutes, hgraph, hoverlays, hcomplete⟩
  intro n t
  rw [hnode.arcs hs, Neighborhood.mem_arcsOfAll, ExpiringTable.getElem?_live]
  rfl

end Node

end Meshcast
