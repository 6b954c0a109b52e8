import Mathlib.Combinatorics.SimpleGraph.Metric
import Meshcast.Proofs.Flooding
import Meshcast.Proofs.RelaySelection
import Meshcast.Proofs.Routing

/-!
# Meshcast — announcing the selectors is enough for shortest paths

A node announces only the links to those neighbors that chose it as a relay, so the topology of a
node is a small part of the links there are. It still holds a shortest path to everybody: whoever is
three hops away or more has a relay that is one hop closer.

* **`Mirrors`** — what a node knows of its surroundings is what is there.
* **`Mirrors.exists_relay`** — who is two hops away hears a relay; **`exists_relay_toward`** — of
  the relays of a node, one is closer to whoever is farther than two hops away.
* **`Suffices`** — a topology that leads one hop closer from everywhere, and nowhere else.
* **`Suffices.shortestRoutes`** — with such a topology the routes are shortest paths.
-/

namespace Meshcast

variable {V : Type} {G : SimpleGraph V}

/-- Under the identifiers that `name` gives, the sets are the neighbors of `x` in a graph, and the
links from these to others. -/
structure Mirrors (G : SimpleGraph V) (name : V → NodeId) (x : V) (symmetric : NodeSet)
    (arcs : ArcSet) : Prop where
  mem_symmetric : ∀ id, id ∈ symmetric ↔ ∃ y, G.Adj x y ∧ name y = id
  mem_arcs : ∀ arc, arc ∈ arcs ↔
    ∃ y z, G.Adj x y ∧ G.Adj y z ∧ z ≠ x ∧ z ≠ y ∧ arc = ⟨name y, name z⟩

/-- The routes are shortest paths of at most `maxHops` hops, and none is missing. -/
structure ShortestRoutes (G : SimpleGraph V) (name : V → NodeId) (x : V) (routes : RoutingTable) :
    Prop where
  route : ∀ v, v ≠ x → G.Reachable x v → G.dist x v ≤ Routing.maxHops →
    ∃ (y : V) (first : G.Adj x y) (rest : G.Walk y v),
      (rest.cons first).IsPath ∧ (rest.cons first).length = G.dist x v
        ∧ routes[name v]? = some ⟨name y, G.dist x v⟩
  only : ∀ id ∈ routes, ∃ v, v ≠ x ∧ name v = id ∧ G.Reachable x v ∧ G.dist x v ≤ Routing.maxHops

/-! ## Distances -/

theorem dist_le_dist_add_one {x u v : V} (hu : G.Reachable x u) (huv : G.Adj u v) :
    G.dist x v ≤ G.dist x u + 1 := by
  obtain ⟨p, hp⟩ := hu.exists_walk_length_eq_dist
  have hle := SimpleGraph.dist_le (p.concat huv)
  rw [SimpleGraph.Walk.length_concat, hp] at hle
  exact hle

/-- On a shortest path, the node before the last is one hop closer. -/
theorem exists_adj_closer {x v : V} (hv : G.Reachable x v) (hne : v ≠ x) :
    ∃ u, G.Adj u v ∧ G.Reachable x u ∧ G.dist x u + 1 = G.dist x v := by
  obtain ⟨p, hp⟩ := hv.symm.exists_walk_length_eq_dist
  cases p with
  | nil => exact absurd rfl hne
  | @cons _ u _ hvu rest =>
    have hu : G.Reachable x u := ⟨rest.reverse⟩
    have hle := SimpleGraph.dist_le rest.reverse
    have hnear := dist_le_dist_add_one hu hvu.symm
    rw [SimpleGraph.Walk.length_reverse] at hle
    rw [SimpleGraph.Walk.length_cons, SimpleGraph.dist_comm] at hp
    exact ⟨u, hvu.symm, hu, by omega⟩

/-! ## A relay that is closer -/

/-- Who is two hops from `v` hears a relay of `v`. -/
theorem Mirrors.exists_relay {name : V → NodeId} {v t w : V} {symmetric : NodeSet} {arcs : ArcSet}
    (h : Mirrors G name v symmetric arcs) (hname : Function.Injective name) (hvt : G.Adj v t)
    (htw : G.Adj t w) (hwv : w ≠ v) (hvw : ¬G.Adj v w) :
    ∃ u, name u ∈ selectRelays (name v) symmetric arcs ∧ G.Adj v u ∧ G.Adj u w := by
  have hstrict : ⟨name t, name w⟩ ∈ RelaySelection.strictArcs (name v) symmetric arcs := by
    refine RelaySelection.mem_strictArcs.2 ⟨?_, ?_, hname.ne hwv, ?_⟩
    · exact (h.mem_arcs _).2 ⟨t, w, hvt, htw, hwv, htw.ne', rfl⟩
    · exact (h.mem_symmetric _).2 ⟨t, hvt, rfl⟩
    · intro hmem
      obtain ⟨y, hvy, hy⟩ := (h.mem_symmetric _).1 hmem
      exact hvw (hname hy ▸ hvy)
  obtain ⟨m, hm, hcovers⟩ := exists_relay_of_strictArc hstrict
  obtain ⟨u, z, hvu, huz, -, -, harc⟩ :=
    (h.mem_arcs _).1 (RelaySelection.mem_strictArcs.1 hcovers).1
  obtain ⟨rfl, hz⟩ := Arc.mk.inj harc
  obtain rfl := hname hz
  exact ⟨u, hm, hvu, huz⟩

/-- Of the relays of `v`, one is a hop closer to `x`, if `x` is more than two hops away: the node
two hops before `v` on a shortest path hears a relay. -/
theorem exists_relay_toward {name : V → NodeId} (hname : Function.Injective name) {x v : V}
    {symmetric : NodeSet} {arcs : ArcSet} (h : Mirrors G name v symmetric arcs)
    (hv : G.Reachable x v) (hfar : 3 ≤ G.dist x v) :
    ∃ u, name u ∈ selectRelays (name v) symmetric arcs ∧ G.Adj u v
      ∧ G.dist x u + 1 = G.dist x v := by
  have hne {u : V} (hu : 1 ≤ G.dist x u) : u ≠ x := by
    rintro rfl
    rw [SimpleGraph.dist_self] at hu
    omega
  obtain ⟨t, htv, ht, hdt⟩ := exists_adj_closer hv (hne (by omega))
  obtain ⟨w, hwt, hw, hdw⟩ := exists_adj_closer ht (hne (by omega))
  -- `w` is two hops from `v`, not fewer
  have hwv : w ≠ v := by
    rintro rfl
    omega
  have hfarther : ¬G.Adj v w := by
    intro hvw
    have := dist_le_dist_add_one hw hvw.symm
    omega
  obtain ⟨u, hrelay, hvu, huw⟩ := h.exists_relay hname htv.symm hwt.symm hwv hfarther
  have hu : G.Reachable x u := hw.trans huw.symm.reachable
  have hdu := dist_le_dist_add_one hw huw.symm
  have hdv := dist_le_dist_add_one hu hvu.symm
  exact ⟨u, hrelay, hvu.symm, by omega⟩

/-- Relays are neighbors. -/
theorem adj_of_mem_selectRelays {name : V → NodeId} {v : V} {symmetric : NodeSet} {arcs : ArcSet}
    (h : Mirrors G name v symmetric arcs) {m : NodeId}
    (hm : m ∈ selectRelays (name v) symmetric arcs) : ∃ u, G.Adj v u ∧ name u = m := by
  obtain ⟨t, ht⟩ := exists_strictArc_of_mem_selectRelays hm
  exact (h.mem_symmetric _).1 (RelaySelection.mem_strictArcs.1 ht).2.1

/-! ## Routes -/

/-- Arcs of a topology that are links, enough of them to come closer to `x` from anywhere. What is
said of nodes that are not connected to `x`, or by `x` itself, is of no account. -/
structure Suffices (G : SimpleGraph V) (name : V → NodeId) (x : V) (topology : List Arc) :
    Prop where
  sound : ∀ u id, u ≠ x → G.Reachable x u → ⟨name u, id⟩ ∈ topology →
    ∃ v, G.Adj u v ∧ name v = id
  closer : ∀ v, G.Reachable x v → 3 ≤ G.dist x v →
    ∃ u, G.Adj u v ∧ G.dist x u + 1 = G.dist x v ∧ ⟨name u, name v⟩ ∈ topology

section Routes

variable {name : V → NodeId} {x : V} {symmetric : NodeSet} {arcs : ArcSet} {topology : List Arc}

/-- Every way is a walk from a neighbor of `x`. -/
theorem walk_of_way (h : Mirrors G name x symmetric arcs) (ht : Suffices G name x topology)
    {via id : NodeId} {hops : Nat}
    (hway : Routing.Way (name x) symmetric arcs topology via hops id) :
    ∃ (y v : V) (_ : G.Adj x y) (rest : G.Walk y v),
      name y = via ∧ name v = id ∧ v ≠ x ∧ rest.length + 1 = hops := by
  induction hway with
  | neighbor hn =>
    obtain ⟨y, hxy, rfl⟩ := (h.mem_symmetric _).1 hn
    exact ⟨y, y, hxy, .nil, rfl, rfl, hxy.ne', rfl⟩
  | twoHop hn harc hself =>
    obtain ⟨y, z, hxy, hyz, hzx, -, heq⟩ := (h.mem_arcs _).1 harc
    obtain ⟨rfl, rfl⟩ := Arc.mk.inj heq
    exact ⟨y, z, hxy, .cons hyz .nil, rfl, rfl, hzx, rfl⟩
  | advertised _ harc hself ih =>
    obtain ⟨y, u, hxy, rest, rfl, rfl, hux, rfl⟩ := ih
    obtain ⟨v, huv, rfl⟩ := ht.sound u _ hux ⟨rest.cons hxy⟩ harc
    refine ⟨y, v, hxy, rest.concat huv, rfl, rfl, fun hvx => hself (hvx ▸ rfl), ?_⟩
    rw [SimpleGraph.Walk.length_concat]

/-- Whoever is connected to `x` is at the end of a way as long as the distance. -/
theorem way_of_reachable (hname : Function.Injective name) (h : Mirrors G name x symmetric arcs)
    (ht : Suffices G name x topology) {v : V} (hv : G.Reachable x v) (hne : v ≠ x) :
    ∃ via, Routing.Way (name x) symmetric arcs topology via (G.dist x v) (name v) := by
  have hpos := hv.pos_dist_of_ne hne.symm
  induction hd : G.dist x v using Nat.strong_induction_on generalizing v with
  | _ d ih =>
    obtain ⟨t, htv, htx, hdt⟩ := exists_adj_closer hv hne
    by_cases hone : d = 1
    · have hxv := SimpleGraph.dist_eq_one_iff_adj.1 (hd.trans hone)
      exact ⟨name v, hone ▸ .neighbor ((h.mem_symmetric _).2 ⟨v, hxv, rfl⟩)⟩
    by_cases htwo : d = 2
    · have hxt : G.Adj x t := SimpleGraph.dist_eq_one_iff_adj.1 (by omega)
      exact ⟨name t, htwo ▸ .twoHop ((h.mem_symmetric _).2 ⟨t, hxt, rfl⟩)
        ((h.mem_arcs _).2 ⟨t, v, hxt, htv, hne, htv.ne', rfl⟩) (hname.ne hne)⟩
    · obtain ⟨u, huv, hdu, harc⟩ := ht.closer v hv (by omega)
      have hu : G.Reachable x u := hv.trans huv.symm.reachable
      have hux : u ≠ x := by
        rintro rfl
        rw [SimpleGraph.dist_self] at hdu
        omega
      obtain ⟨via, hway⟩ := ih (G.dist x u) (by omega) hu hux (by omega) rfl
      have hd' : d = G.dist x u + 1 := by omega
      exact ⟨via, hd' ▸ .advertised hway harc (hname.ne hne)⟩

/-- With arcs of links that lead closer from everywhere, the routes are shortest paths. -/
theorem Suffices.shortestRoutes (hname : Function.Injective name)
    (h : Mirrors G name x symmetric arcs) (ht : Suffices G name x topology) :
    ShortestRoutes G name x (computeRoutes (name x) symmetric arcs topology) where
  route v hne hv hle := by
    obtain ⟨via, hway⟩ := way_of_reachable hname h ht hv hne
    obtain ⟨r, hr, hshort⟩ := route_of_way hway hle
    obtain ⟨y, v', hxy, rest, hy, hv', -, hlength⟩ := walk_of_way h ht (way_of_route hr).1
    obtain rfl := hname hv'
    have hdist : (rest.cons hxy).length = G.dist x v' := by
      have := SimpleGraph.dist_le (rest.cons hxy)
      rw [SimpleGraph.Walk.length_cons] at this ⊢
      omega
    refine ⟨y, hxy, rest, SimpleGraph.Walk.isPath_of_length_eq_dist _ hdist, hdist, ?_⟩
    rw [hr, hy, ← hdist, SimpleGraph.Walk.length_cons, hlength]
  only id hid := by
    obtain ⟨r, hr⟩ := mem_iff_exists_getElem?.1 hid
    obtain ⟨hway, hle⟩ := way_of_route hr
    obtain ⟨y, v, hxy, rest, -, hv, hvx, hlength⟩ := walk_of_way h ht hway
    refine ⟨v, hvx, hv, ⟨rest.cons hxy⟩, ?_⟩
    have := SimpleGraph.dist_le (rest.cons hxy)
    rw [SimpleGraph.Walk.length_cons] at this
    omega

end Routes

/-! ## The selectors are enough -/

/-- Every node of a graph knows its surroundings and has chosen relays accordingly. A node that
knows of everybody the links to those who chose it as a relay has shortest routes to all who are at
most `maxHops` away, and no others. -/
theorem Node.shortestRoutes_of_selectors (G : SimpleGraph V) (name : V → V → NodeId)
    (hname : ∀ v, Function.Injective (name v)) (symmetric : V → NodeSet) (arcs : V → ArcSet)
    (hmirrors : ∀ v, Mirrors G (name v) v (symmetric v) (arcs v))
    (x : V) (node : Node) (now : Nat) (hself : node.self = name x x)
    (hsymmetric : node.neighbors.symmetric now = symmetric x)
    (harcs : node.neighbors.twoHopArcs = arcs x)
    (htopology : ∀ arc, arc ∈ node.topology.arcs now ↔
      ∃ u v, name v u ∈ selectRelays (name v v) (symmetric v) (arcs v)
        ∧ arc = ⟨name x u, name x v⟩) :
    ShortestRoutes G (name x) x (node.updateRoutes now).routes := by
  have hsuffices : Suffices G (name x) x (node.topology.arcs now) := by
    refine ⟨?_, ?_⟩
    · intro u id _ _ harc
      obtain ⟨u', v, hrelay, heq⟩ := (htopology _).1 harc
      obtain ⟨hu, rfl⟩ := Arc.mk.inj heq
      obtain ⟨u'', hvu, hu'⟩ := adj_of_mem_selectRelays (hmirrors v) hrelay
      obtain rfl := hname x hu
      obtain rfl := hname v hu'
      exact ⟨v, hvu.symm, rfl⟩
    · intro v hv hfar
      obtain ⟨u, hrelay, huv, hdist⟩ := exists_relay_toward (hname v) (hmirrors v) hv hfar
      exact ⟨u, huv, hdist, (htopology _).2 ⟨u, v, hrelay, rfl⟩⟩
  show ShortestRoutes G (name x) x (computeRoutes node.self (node.neighbors.symmetric now)
    node.neighbors.twoHopArcs (node.topology.arcs now))
  rw [hself, hsymmetric, harcs]
  exact hsuffices.shortestRoutes (hname x) (hmirrors x)

/-! ## Four hosts in a line -/

namespace Network

def lineSymmetric (i : Fin 4) : NodeSet :=
  .ofList ((lineNeighbors i).map fun j => (⟨j.val⟩ : NodeId))

def lineArcs (i : Fin 4) : ArcSet :=
  .ofList ((lineNeighbors i).flatMap fun j =>
    ((lineNeighbors j).filter (· ≠ i)).map fun k => (⟨⟨j.val⟩, ⟨k.val⟩⟩ : Arc))

theorem mirrors_line (i : Fin 4) :
    Mirrors lineGraph (fun j => ⟨j.val⟩) i (lineSymmetric i) (lineArcs i) where
  mem_symmetric id := by
    unfold lineSymmetric lineNeighbors
    simp
  mem_arcs arc := by
    unfold lineArcs lineNeighbors
    rw [mem_ofList]
    simp only [List.mem_flatMap, List.mem_map, List.mem_filter, List.mem_finRange, true_and,
      decide_eq_true_eq]
    constructor
    · rintro ⟨y, hy, z, ⟨hz, hne⟩, rfl⟩
      exact ⟨y, z, hy, hz, hne, hz.ne', rfl⟩
    · rintro ⟨y, z, hy, hz, hne, -, rfl⟩
      exact ⟨y, hy, z, ⟨hz, hne⟩, rfl⟩

/-- An announcement of a host in the line: its two neighbors chose it as their relay. -/
def lineAnnouncement (i : Fin 4) : Packet where
  header :=
    { validity := ⟨0xe8⟩, originator := lineAddress i, ttl := 5, hopCount := 0, seq := ⟨100⟩ }
  body := .tc { ansn := ⟨1⟩, advertised := .ofList ((lineNeighbors i).map lineAddress) }

/-- A host at one end of the line, once it has heard its neighbor and what the two hosts in the
middle announce. -/
def lineEnd (self near far : Fin 4) : Node :=
  ((Moment.start (lineAddress self) {} 0).run
    [.receivePacket (lineGreeting near) (lineAddress near),
      .receivePacket (lineAnnouncement near) (lineAddress near),
      .receivePacket (lineAnnouncement far) (lineAddress near)]).node

/-- The far end of the line is three hops away. -/
theorem shortestRoutes_line :
    ShortestRoutes lineGraph (fun j => ⟨j.val⟩) 0 ((lineEnd 0 1 2).updateRoutes 0).routes
      ∧ ((lineEnd 0 1 2).updateRoutes 0).routes[(⟨3⟩ : NodeId)]? = some ⟨⟨1⟩, 3⟩ := by
  refine ⟨Node.shortestRoutes_of_selectors lineGraph (fun _ j => ⟨j.val⟩)
    (fun _ i j h => Fin.ext (NodeId.mk.inj h)) lineSymmetric lineArcs mirrors_line 0
    (lineEnd 0 1 2) 0 (by decide +kernel) (by decide +kernel) (by decide +kernel) ?_,
    by decide +kernel⟩
  intro arc
  have hrelays : ∀ v u : Fin 4,
      (⟨u.val⟩ : NodeId) ∈ selectRelays ⟨v.val⟩ (lineSymmetric v) (lineArcs v) ↔
        (u, v) ∈ [((1 : Fin 4), (0 : Fin 4)), (1, 2), (2, 1), (2, 3)] := by
    decide +kernel
  have harcs : (lineEnd 0 1 2).topology.arcs 0 =
      [((1 : Fin 4), (0 : Fin 4)), (1, 2), (2, 1), (2, 3)].map fun link =>
        ⟨⟨link.1.val⟩, ⟨link.2.val⟩⟩ := by
    decide +kernel
  rw [harcs, List.mem_map]
  simp only [hrelays, Prod.exists, eq_comm]

end Network

end Meshcast
