import Meshcast.Graph.Known
import Meshcast.Proofs.Contraction
import Meshcast.Proofs.Flooding
import Meshcast.Proofs.Maintenance
import Meshcast.Proofs.Reachability
import Meshcast.Proofs.TreeSearch

/-!
# Meshcast — every group has a minimum spanning tree

The tree of a group comes out of four steps: the links that a node knows of become a graph, the
graph is restricted to what the node can reach, it is contracted to the members of the group and the
node itself, and a minimum spanning tree of the rest is searched. Should the search fail, a star
would take the place of the tree; it never does.

* **`KnownLink`** — the links that a node knows of.
* **`mem_nodes_knownGraph`** — the graph has the nodes that these links connect with the node.
* **`exists_spansGroup`** — the search succeeds on the contracted graph of every group.
* **`groups_spanned`** — so it does in every node, whatever happened to it.
-/

namespace Meshcast

section Known

variable (self : NodeId) (symmetric : NodeSet) (arcs : ArcSet) (topology : List Arc)

/-- The links that a node knows of: to its symmetric neighbors, from these to others, and those that
are advertised. -/
inductive KnownLink : NodeId → NodeId → Prop
  | neighbor {n : NodeId} (h : n ∈ symmetric) : KnownLink self n
  | twoHop {n t : NodeId} (h : n ∈ symmetric) (harc : ⟨n, t⟩ ∈ arcs) : KnownLink n t
  | advertised {u v : NodeId} (harc : ⟨u, v⟩ ∈ topology) : KnownLink u v

/-- The known links, one after the other. -/
def knownLinks : List Arc :=
  symmetric.toList.map (⟨self, ·⟩) ++ arcs.toList.filter (symmetric.contains ·.source) ++ topology

/-- The graph of all known links, whether or not the node can reach them. -/
def linkGraph : Graph :=
  (knownLinks self symmetric arcs topology).foldl
    (fun g arc => g.connect arc.source arc.target unitWeight) (Graph.singleton self)

variable {self symmetric arcs topology}

theorem mem_knownLinks {u v : NodeId} : ⟨u, v⟩ ∈ knownLinks self symmetric arcs topology ↔
    KnownLink self symmetric arcs topology u v := by
  unfold knownLinks
  simp only [List.mem_append, List.mem_map, List.mem_filter, Std.ExtTreeSet.mem_toList,
    Std.ExtTreeSet.contains_iff_mem, Arc.mk.injEq]
  constructor
  · rintro ((⟨n, hn, rfl, rfl⟩ | ⟨harc, hu⟩) | harc)
    · exact .neighbor hn
    · exact .twoHop hu harc
    · exact .advertised harc
  · intro h
    cases h with
    | neighbor h => exact .inl (.inl ⟨v, h, rfl, rfl⟩)
    | twoHop h harc => exact .inl (.inr ⟨harc, h⟩)
    | advertised harc => exact .inr harc

/-! ## The graph of the known links -/

theorem foldl_connect (links : List Arc) {g : Graph} (h : g.Coherent) :
    (links.foldl (fun g arc => g.connect arc.source arc.target unitWeight) g).Coherent
      ∧ (∀ x ∈ g.nodes,
          x ∈ (links.foldl (fun g arc => g.connect arc.source arc.target unitWeight) g).nodes)
      ∧ ∀ a b, (links.foldl (fun g arc => g.connect arc.source arc.target unitWeight) g).HasEdge a b
          ↔ a ≠ b ∧ (⟨a, b⟩ ∈ links ∨ ⟨b, a⟩ ∈ links) ∨ g.HasEdge a b := by
  induction links generalizing g with
  | nil => exact ⟨h, fun _ hx => hx, by simp⟩
  | cons link rest ih =>
    obtain ⟨u, v⟩ := link
    obtain ⟨hcoherent, hnodes, hedges⟩ := ih (h.connect u v unitWeight)
    refine ⟨hcoherent, fun x hx => hnodes x (Graph.mem_nodes_connect hx), fun a b => ?_⟩
    rw [List.foldl_cons, hedges, Graph.hasEdge_connect]
    simp only [List.mem_cons, Arc.mk.injEq]
    tauto

theorem coherent_linkGraph : (linkGraph self symmetric arcs topology).Coherent :=
  (foldl_connect _ (Graph.coherent_singleton self)).1

theorem self_mem_linkGraph : self ∈ (linkGraph self symmetric arcs topology).nodes :=
  (foldl_connect _ (Graph.coherent_singleton self)).2.1 self (mem_ofList.2 List.mem_cons_self)

theorem hasEdge_linkGraph {a b : NodeId} :
    (linkGraph self symmetric arcs topology).HasEdge a b ↔
      a ≠ b ∧ (KnownLink self symmetric arcs topology a b
        ∨ KnownLink self symmetric arcs topology b a) := by
  unfold linkGraph
  rw [(foldl_connect _ (Graph.coherent_singleton self)).2.2, mem_knownLinks, mem_knownLinks]
  refine or_iff_left ?_
  rintro ⟨w, hw⟩
  simp [Graph.singleton, Graph.weight?, Graph.targets] at hw

/-- The edges of the graph lead to whatever the links connect. -/
theorem reachable_linkGraph {a b : NodeId} :
    Relation.ReflTransGen (linkGraph self symmetric arcs topology).HasEdge a b ↔
      Relation.EqvGen (KnownLink self symmetric arcs topology) a b := by
  constructor
  · intro h
    induction h with
    | refl => exact .refl a
    | tail _ he ih =>
      refine .trans _ _ _ ih ?_
      rcases (hasEdge_linkGraph.1 he).2 with hlink | hlink
      · exact .rel _ _ hlink
      · exact .symm _ _ (.rel _ _ hlink)
  · intro h
    have hsymm : Std.Symm (linkGraph self symmetric arcs topology).HasEdge := by
      refine ⟨fun a b he => ?_⟩
      obtain ⟨hne, hlink⟩ := hasEdge_linkGraph.1 he
      exact hasEdge_linkGraph.2 ⟨hne.symm, hlink.symm⟩
    induction h with
    | rel a b hlink =>
      by_cases hne : a = b
      · rw [hne]
      · exact .single (hasEdge_linkGraph.2 ⟨hne, .inl hlink⟩)
    | refl a => exact .refl
    | symm a b _ ih => exact Relation.ReflTransGen.stdSymm.symm _ _ ih
    | trans a b c _ _ ih₁ ih₂ => exact ih₁.trans ih₂

/-! ## What the node can reach -/

theorem knownGraph_eq : knownGraph self symmetric arcs topology =
    (linkGraph self symmetric arcs topology).restrictedTo
      ((linkGraph self symmetric arcs topology).reachableFrom self) :=
  rfl

theorem coherent_knownGraph : (knownGraph self symmetric arcs topology).Coherent :=
  Graph.coherent_restrictedTo _ _

theorem mem_nodes_knownGraph {x : NodeId} : x ∈ (knownGraph self symmetric arcs topology).nodes ↔
    Relation.EqvGen (KnownLink self symmetric arcs topology) self x := by
  have hreachable : x ∈ (linkGraph self symmetric arcs topology).reachableFrom self ↔
      Relation.EqvGen (KnownLink self symmetric arcs topology) self x := by
    rw [Graph.mem_reachableFrom coherent_linkGraph self_mem_linkGraph, reachable_linkGraph]
  rw [knownGraph_eq, Graph.mem_nodes_restrictedTo coherent_linkGraph, hreachable]
  refine and_iff_right_of_imp fun h => ?_
  -- a node that was reached is the node itself or the end of an edge
  rcases Relation.ReflTransGen.cases_tail (reachable_linkGraph.2 h) with rfl | ⟨y, -, he⟩
  · exact self_mem_linkGraph
  · exact coherent_linkGraph.target_mem y x he

theorem reachable_knownGraph {x : NodeId}
    (hx : x ∈ (knownGraph self symmetric arcs topology).nodes) :
    Relation.ReflTransGen (knownGraph self symmetric arcs topology).HasEdge self x := by
  have hpath := reachable_linkGraph.2 (mem_nodes_knownGraph.1 hx)
  clear hx
  induction hpath with
  | refl => exact .refl
  | @tail x y hpath he ih =>
    refine ih.tail ?_
    obtain ⟨w, hw⟩ := he
    refine ⟨w, ?_⟩
    rw [knownGraph_eq, Graph.weight?_restrictedTo coherent_linkGraph, if_pos]
    · exact hw
    · rw [Graph.mem_reachableFrom coherent_linkGraph self_mem_linkGraph,
        Graph.mem_reachableFrom coherent_linkGraph self_mem_linkGraph]
      exact ⟨hpath, hpath.tail ⟨w, hw⟩⟩

/-! ## The tree of a group -/

/-- The tree is a minimum spanning tree of the graph, with the given root, over the root and the
members that links connect with it. -/
structure SpansGroup (graph : Graph) (links : NodeId → NodeId → Prop) (root : NodeId)
    (members : NodeSet) (tree : SpanningTree) : Prop where
  minimum : graph.minimumSpanningTree root = .ok tree
  root_eq : tree.root = root
  mem_nodes : ∀ id, id ∈ tree.nodes ↔ id = root ∨ id ∈ members ∧ Relation.EqvGen links root id

/-- Contracted to the members of a group, the graph of what a node knows has a minimum spanning
tree: it is connected, and no path in it is so long that its length would count as infinite. -/
theorem exists_spansGroup (groups : Groups) (group : Address)
    (hsize : (knownGraph self symmetric arcs topology).nodeCount < 2 ^ 32) :
    ∃ tree, SpansGroup (groupGraph (knownGraph self symmetric arcs topology) groups self group)
      (KnownLink self symmetric arcs topology) self (groups.members group) tree := by
  have hg : (knownGraph self symmetric arcs topology).Coherent := coherent_knownGraph
  have hmax : (knownGraph self symmetric arcs topology).nodeCount ≤ maxWeight :=
    Nat.le_of_lt_succ hsize
  unfold groupGraph
  have hkeep (x : NodeId) : x ∈ (groups.members group).insert self ↔
      x = self ∨ x ∈ groups.members group :=
    mem_insert
  generalize hk : (groups.members group).insert self = keep at hkeep
  have hself : self ∈ keep := (hkeep self).2 (.inl rfl)
  have hc := Graph.coherent_contract hg keep
  have hnodes (x : NodeId) : x ∈ ((knownGraph self symmetric arcs topology).contract keep).nodes ↔
      Relation.EqvGen (KnownLink self symmetric arcs topology) self x ∧ x ∈ keep := by
    rw [Graph.mem_nodes_contract hg, mem_nodes_knownGraph]
  have hconnected : ∀ x ∈ ((knownGraph self symmetric arcs topology).contract keep).nodes,
      Relation.ReflTransGen (fun a b =>
        ((knownGraph self symmetric arcs topology).contract keep).HasEdge a b
          ∨ ((knownGraph self symmetric arcs topology).contract keep).HasEdge b a) self x := by
    intro x hx
    obtain ⟨hlinked, hkept⟩ := (hnodes x).1 hx
    have hpath := reachable_knownGraph (mem_nodes_knownGraph.2 hlinked)
    exact Relation.ReflTransGen.mono (fun a b => Or.inl) _ _
      (Graph.reachable_contract hg keep hself hkept hpath)
  have hlight : ∀ u v w,
      ((knownGraph self symmetric arcs topology).contract keep).weight? u v = some w →
        w < maxWeight := by
    intro u v w hw
    have hne : u ≠ v := by
      rintro rfl
      exact hc.irreflexive u ⟨w, hw⟩
    have hu := ((hnodes u).1 (hc.source_mem u v ⟨w, hw⟩)).2
    have hv := ((hnodes v).1 (hc.target_mem u v ⟨w, hw⟩)).2
    have hleast := (Graph.weight?_contract_of_lt hg hmax hne hu hv).1 hw
    exact Nat.lt_of_lt_of_le (Graph.lt_nodeCount_of_isLeast hg hne (not_not.2 hu) hleast) hmax
  obtain ⟨tree, hminimum, hroot, htree⟩ := Graph.minimumSpanningTree_of_connected hc hconnected
    hlight ((hnodes self).2 ⟨.refl self, hself⟩)
  refine ⟨tree, hminimum, hroot, fun id => ?_⟩
  rw [htree, hnodes, hkeep]
  constructor
  · rintro ⟨hlinked, rfl | hmember⟩
    · exact .inl rfl
    · exact .inr ⟨hmember, hlinked⟩
  · rintro (rfl | ⟨hmember, hlinked⟩)
    · exact ⟨.refl id, .inl rfl⟩
    · exact ⟨hlinked, .inr hmember⟩

end Known

/-! ## The trees of a node -/

/-- A tree of a single node has nothing attached to its root. -/
theorem SpanningTree.Grown.eq_singleton {t : SpanningTree} (h : t.Grown)
    (hnodes : ∀ x ∈ t.nodes, x = t.root) : t = .singleton t.root := by
  cases h with
  | singleton root => rfl
  | @attach t child parent weight grown new there =>
    have hchild : child = t.root := hnodes child ((mem_nodes_attach weight there).2 (.inl rfl))
    exact absurd (hchild ▸ grown.root_mem) new

namespace Node

/-- The graph of a node is that of the links it knew of at some time. -/
def GraphKnown (node : Node) : Prop :=
  ∃ symmetric arcs topology, node.graph = knownGraph node.self symmetric arcs topology

theorem graphKnown_updateRoutes (node : Node) (now : Nat) :
    (node.updateRoutes now).GraphKnown :=
  ⟨_, _, _, (routesCurrent_updateRoutes node now).2⟩

theorem GraphKnown.updateOverlays {node : Node} (h : node.GraphKnown) :
    node.updateOverlays.GraphKnown :=
  h

/-- Computing afresh keeps the graph or makes a new one. -/
theorem GraphKnown.recompute {node : Node} (h : node.GraphKnown) (now : Nat) :
    (node.recompute now).2.GraphKnown := by
  have hrelays : (node.updateRelays now).GraphKnown := by
    unfold updateRelays
    dsimp only
    split
    · exact h
    · exact h
  unfold Node.recompute
  generalize node.updateRelays now = node at hrelays
  dsimp only
  split
  · exact (graphKnown_updateRoutes _ now).updateOverlays
  · split
    · exact GraphKnown.updateOverlays hrelays
    · exact hrelays

theorem GraphKnown.perform {node : Node} (h : node.GraphKnown) (now : Nat) (op : Operation) :
    (node.perform now op).GraphKnown := by
  rcases tablesNoted_perform node now op with hnoted | rfl | rfl
  · obtain ⟨symmetric, arcs, topology, hgraph⟩ := h
    have hself : (node.perform now op).self = node.self := hnoted.neighbors.1
    exact ⟨symmetric, arcs, topology, by rw [hnoted.graph, hself, hgraph]⟩
  · exact h.recompute now
  · exact h

theorem graphKnown_run (address : Address) (config : Config) (since : Nat) (ops : List Operation) :
    ((Moment.start address config since).run ops).node.GraphKnown := by
  refine Moment.run_induction (P := fun m => m.node.GraphKnown) ?_
    (fun m op h => h.perform m.now op) ops
  refine ⟨∅, ∅, [], ?_⟩
  show Graph.singleton ⟨0⟩ = knownGraph ⟨0⟩ ∅ ∅ []
  decide +kernel

/-- With current overlays, the tree of a group is the minimum spanning tree of its graph, if there
is one. -/
theorem OverlaysCurrent.treeOf_eq {node : Node} (h : node.OverlaysCurrent) {group : Address}
    {links : NodeId → NodeId → Prop} {tree : SpanningTree}
    (htree : SpansGroup (groupGraph node.graph node.groups node.self group) links node.self
      (node.groups.members group) tree) : node.treeOf group = tree := by
  have hover : Overlay.treeOver node.self (groupGraph node.graph node.groups node.self group)
      = tree := by
    unfold Overlay.treeOver
    rw [htree.minimum]
  unfold Node.treeOf
  cases hoverlay : node.overlays[group]? with
  | some overlay =>
    obtain ⟨hgraph, htree⟩ := h.1 group overlay hoverlay
    dsimp only
    rw [htree, hgraph, hover]
  | none =>
    -- without an overlay, nobody else is in the tree
    have hgrown : tree.Grown := (SpanningTree.Built.minimum htree.minimum).grown
    have hsingle : ∀ x ∈ tree.nodes, x = tree.root := by
      intro x hx
      by_cases hgroup : group ∈ node.groups.all
      · have hsize := (h.2 group hgroup hoverlay).2
        rw [hover] at hsize
        exact hgrown.eq_root_of_size hsize hx
      · rcases (htree.mem_nodes x).1 hx with rfl | ⟨hmember, -⟩
        · exact htree.root_eq.symm
        · exact absurd (Groups.mem_all.2 ⟨x, Groups.mem_members.1 hmember⟩) hgroup
    rw [hgrown.eq_singleton hsingle, htree.root_eq]

end Node

/-- **No group needs a star.** Whatever links a node knows of, as long as they connect fewer than
2³² nodes, the graph of each group has a minimum spanning tree over the node and the members that
the links connect with it. Once a node has computed afresh what is due, this is the tree along which
it sends. The links are those of the live tables, unless something dead is waiting to be swept. -/
theorem groups_spanned :
    (∀ (self : NodeId) (symmetric : NodeSet) (arcs : ArcSet) (topology : List Arc) (groups : Groups)
        (group : Address), (knownGraph self symmetric arcs topology).nodeCount < 2 ^ 32 →
      ∃ tree, SpansGroup (groupGraph (knownGraph self symmetric arcs topology) groups self group)
        (KnownLink self symmetric arcs topology) self (groups.members group) tree)
    ∧ ∀ (address : Address) (config : Config) (since : Nat) (ops : List Operation),
      let m := (Moment.start address config since).run ops
      let node := (m.node.recompute m.now).2
      node.graph.nodeCount < 2 ^ 32 →
        ∃ symmetric arcs topology, node.graph = knownGraph node.self symmetric arcs topology
          ∧ (m.node.neighbors.table.Settled m.now → m.node.topology.table.Settled m.now →
              symmetric = node.neighbors.symmetric m.now ∧ arcs = node.neighbors.twoHopArcs
                ∧ topology = node.topology.arcs m.now)
          ∧ ∀ group, SpansGroup (groupGraph node.graph node.groups node.self group)
              (KnownLink node.self symmetric arcs topology) node.self (node.groups.members group)
              (node.treeOf group) := by
  refine ⟨fun self symmetric arcs topology groups group => exists_spansGroup groups group, ?_⟩
  intro address config since ops m node hsize
  have hnode : node.UpToDate m.now :=
    Node.upToDate_recompute (Node.upToDate_run address config since ops)
  have hflags : node.flags = ⟨false, false, false, false⟩ := Node.flags_recompute _ _
  have hneighbors : node.neighbors.changed = false := congrArg ChangeFlags.neighbors hflags
  have htopology : node.topology.changed = false := congrArg ChangeFlags.topology hflags
  have hgroups : node.groups.changed = false := congrArg ChangeFlags.groups hflags
  have hoverlays := hnode.overlays hneighbors htopology hgroups
  have hspanned {symmetric : NodeSet} {arcs : ArcSet} {topology : List Arc}
      (hgraph : node.graph = knownGraph node.self symmetric arcs topology) (group : Address) :
      SpansGroup (groupGraph node.graph node.groups node.self group)
        (KnownLink node.self symmetric arcs topology) node.self (node.groups.members group)
        (node.treeOf group) := by
    have hfew : (knownGraph node.self symmetric arcs topology).nodeCount < 2 ^ 32 := hgraph ▸ hsize
    obtain ⟨tree, htree⟩ := exists_spansGroup node.groups group hfew
    rw [← hgraph] at htree
    rw [hoverlays.treeOf_eq htree]
    exact htree
  by_cases hsettled : m.node.neighbors.table.Settled m.now ∧ m.node.topology.table.Settled m.now
  · obtain ⟨-, hgraph⟩ := hnode.routes (Node.settled_recompute.1 hsettled.1)
      (Node.settled_recompute.2 hsettled.2) hneighbors htopology
    exact ⟨_, _, _, hgraph, fun _ _ => ⟨rfl, rfl, rfl⟩, hspanned hgraph⟩
  · obtain ⟨symmetric, arcs, topology, hgraph⟩ :=
      (Node.graphKnown_run address config since ops).recompute m.now
    exact ⟨symmetric, arcs, topology, hgraph, fun hs ht => absurd ⟨hs, ht⟩ hsettled,
      hspanned hgraph⟩

/-! ## A host at the end of a line -/

def lineGroup : Address :=
  ⟨0xe0000001⟩

/-- A host has heard the greeting of its neighbor, and both of them are in the group. -/
def groupRun (near : Fin 4) : List Operation :=
  [.receivePacket (Network.lineGreeting near) (Network.lineAddress near), .join lineGroup,
    .receivePacket
      { header :=
          { validity := ⟨0xe8⟩, originator := Network.lineAddress near, ttl := 5, hopCount := 0,
            seq := ⟨100⟩ }
        body := .tc { ansn := ⟨1⟩, groups := .ofList [lineGroup] } }
      (Network.lineAddress near)]

def groupHost (self near : Fin 4) : Node :=
  (((Moment.start (Network.lineAddress self) {} 0).run (groupRun near)).node.recompute 0).2

/-- The two hosts are in the tree of the group, and the node behind them, which is no member, is
not. -/
theorem groups_spanned_line :
    (∃ tree, SpansGroup
      (groupGraph
        (knownGraph ⟨0⟩ (.ofList [(⟨1⟩ : NodeId)]) (.ofList [(⟨⟨1⟩, ⟨2⟩⟩ : Arc)]) [⟨⟨2⟩, ⟨3⟩⟩])
        (groupHost 0 1).groups ⟨0⟩ lineGroup)
      (KnownLink ⟨0⟩ (.ofList [(⟨1⟩ : NodeId)]) (.ofList [(⟨⟨1⟩, ⟨2⟩⟩ : Arc)]) [⟨⟨2⟩, ⟨3⟩⟩])
      ⟨0⟩ ((groupHost 0 1).groups.members lineGroup) tree)
    ∧ (groupHost 0 1).graph.minimumSpanningTree ⟨0⟩ ≠ .ok ((groupHost 0 1).treeOf lineGroup)
    ∧ (groupGraph (groupHost 0 1).graph (groupHost 0 1).groups ⟨0⟩ lineGroup).minimumSpanningTree
        ⟨0⟩ = .ok ((groupHost 0 1).treeOf lineGroup)
    ∧ ((groupHost 0 1).treeOf lineGroup).nodes = .ofList [(⟨0⟩ : NodeId), ⟨1⟩] := by
  obtain ⟨_, _, _, -, -, hspanned⟩ := groups_spanned.2 (Network.lineAddress 0) {} 0 (groupRun 1)
    (by decide +kernel)
  exact ⟨groups_spanned.1 _ _ _ _ _ _ (by decide +kernel), by decide +kernel,
    (hspanned lineGroup).minimum, by decide +kernel⟩

end Meshcast
