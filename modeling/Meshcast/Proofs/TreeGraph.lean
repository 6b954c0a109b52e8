import Mathlib.Combinatorics.SimpleGraph.Acyclic
import Meshcast.Proofs.Reachability
import Meshcast.Proofs.SpanningTree

/-!
# Meshcast — a spanning tree as a graph

A spanning tree records of each node the nodes next to it. These pairs are the edges of a graph on
all identifiers, and this graph is what the tree is about: it has no cycles, and it connects the
nodes of the tree, so between any two of them there is exactly one path. Seen from any of its nodes,
the tree falls apart into the branches behind the neighbors of the node.

* **`SpanningTree.graph`** — the edges of a tree; **`graph_attach`** — each attachment adds one.
* **`Grown.acyclic`**, **`Grown.reachable`** — the graph of a tree that grew is a tree on its nodes.
* **`mem_branch_iff_walk`** — what the search for a branch finds.
* **`mem_branch_iff`** — so a branch holds the nodes to which the path starts over its neighbor.
* **`branch_disjoint`**, **`exists_branch_iff`** — the branches behind different neighbors are
  disjoint, and together they hold every node but the one they are seen from.
-/

namespace Meshcast

namespace SpanningTree

/-- The edges of a tree, in either direction. -/
def graph (t : SpanningTree) : SimpleGraph NodeId :=
  .fromRel fun u v => v ∈ t.neighbors u

theorem graph_singleton (root : NodeId) : (singleton root).graph = ⊥ := by
  ext u v
  simp [graph, neighbors_singleton]

theorem graph_attach (t : SpanningTree) (child parent : NodeId) (weight : Weight) :
    (t.attach child parent weight).graph = t.graph ⊔ .edge parent child := by
  ext u v
  simp only [graph, SimpleGraph.fromRel_adj, mem_neighbors_attach, SimpleGraph.sup_adj,
    SimpleGraph.edge_adj]
  tauto

theorem le_graph_attach (t : SpanningTree) (child parent : NodeId) (weight : Weight) :
    t.graph ≤ (t.attach child parent weight).graph := by
  rw [graph_attach]
  exact le_sup_left

theorem adj_attach (t : SpanningTree) {child parent : NodeId} (weight : Weight)
    (hne : parent ≠ child) : (t.attach child parent weight).graph.Adj parent child := by
  rw [graph_attach, SimpleGraph.sup_adj, SimpleGraph.edge_adj]
  exact .inr ⟨.inl ⟨rfl, rfl⟩, hne⟩

namespace Grown

variable {t : SpanningTree}

theorem adj_iff (h : Grown t) {u v : NodeId} : t.graph.Adj u v ↔ v ∈ t.neighbors u := by
  unfold graph
  rw [SimpleGraph.fromRel_adj, h.mem_neighbors_iff, h.mem_neighbors_iff, or_comm (a := _ = some v),
    or_self]
  refine and_iff_right_of_imp fun hparent => ?_
  rcases hparent with hparent | hparent
  · exact h.ne_of_parent? hparent
  · exact (h.ne_of_parent? hparent).symm

theorem mem_nodes_of_adj (h : Grown t) {u v : NodeId} (hadj : t.graph.Adj u v) :
    u ∈ t.nodes ∧ v ∈ t.nodes := by
  rcases h.mem_neighbors_iff.1 (h.adj_iff.1 hadj) with hparent | hparent
  · exact (h.mem_of_parent? hparent).symm
  · exact h.mem_of_parent? hparent

theorem mem_nodes_of_neighbors (h : Grown t) (x y : NodeId) (hy : y ∈ t.neighbors x) :
    y ∈ t.nodes.toList :=
  Std.ExtTreeSet.mem_toList.2 (h.mem_nodes_of_adj (h.adj_iff.2 hy)).2

/-! ## Acyclic and connected -/

theorem reachable_root (h : Grown t) {x : NodeId} (hx : x ∈ t.nodes) :
    t.graph.Reachable t.root x := by
  induction h generalizing x with
  | singleton root => rw [mem_nodes_singleton.1 hx]; rfl
  | @attach t child parent weight grown new there ih =>
    have hne : parent ≠ child := fun heq => new (heq ▸ there)
    have hle := le_graph_attach t child parent weight
    rcases (mem_nodes_attach weight there).1 hx with rfl | hx
    · exact ((ih there).mono hle).trans (adj_attach t weight hne).reachable
    · exact (ih hx).mono hle

theorem reachable (h : Grown t) {u v : NodeId} (hu : u ∈ t.nodes) (hv : v ∈ t.nodes) :
    t.graph.Reachable u v :=
  (h.reachable_root hu).symm.trans (h.reachable_root hv)

/-- Steps from neighbor to neighbor lead from any node of a tree to any other one. -/
theorem reaches (h : Grown t) {u v : NodeId} (hu : u ∈ t.nodes) (hv : v ∈ t.nodes) :
    Relation.ReflTransGen (fun a b => b ∈ t.neighbors a) u v := by
  have hreach := (t.graph.reachable_iff_reflTransGen u v).1 (h.reachable hu hv)
  rwa [funext₂ fun a b => propext (h.adj_iff (u := a) (v := b))] at hreach

theorem mem_nodes_of_walk (h : Grown t) {u v x : NodeId} (walk : t.graph.Walk u v)
    (hu : u ∈ t.nodes) (hx : x ∈ walk.support) : x ∈ t.nodes := by
  induction walk with
  | nil => exact List.mem_singleton.1 hx ▸ hu
  | cons hadj walk ih =>
    rcases List.mem_cons.1 hx with rfl | hx
    · exact hu
    · exact ih (h.mem_nodes_of_adj hadj).2 hx

/-- Nothing leads out of a tree. -/
theorem mem_nodes_of_reachable (h : Grown t) {u v : NodeId} (hreach : t.graph.Reachable u v)
    (hne : u ≠ v) : u ∈ t.nodes ∧ v ∈ t.nodes := by
  obtain ⟨walk⟩ := hreach
  have hu : u ∈ t.nodes := by
    cases walk with
    | nil => exact absurd rfl hne
    | cons hadj _ => exact (h.mem_nodes_of_adj hadj).1
  exact ⟨hu, h.mem_nodes_of_walk walk hu walk.end_mem_support⟩

theorem acyclic (h : Grown t) : t.graph.IsAcyclic := by
  induction h with
  | singleton root =>
    rw [graph_singleton]
    exact SimpleGraph.isAcyclic_bot
  | @attach t child parent weight grown new there ih =>
    have hne : parent ≠ child := fun heq => new (heq ▸ there)
    have hapart : ¬t.graph.Reachable parent child :=
      fun hreach => new (grown.mem_nodes_of_reachable hreach hne).2
    rw [graph_attach]
    exact (SimpleGraph.isAcyclic_add_edge_iff_of_not_reachable parent child hapart).2 ih

end Grown

/-! ## Branches -/

/-- A path along a tree from `u` to `v` goes over `via` first. There is no other path, since the
edges of a tree make no cycles (`Grown.acyclic`). -/
def LeadsOver (t : SpanningTree) (u via v : NodeId) : Prop :=
  ∃ path : t.graph.Walk u v, path.IsPath ∧ path.support[1]? = some via

theorem branch_eq_empty (t : SpanningTree) {u via : NodeId} (hout : via ∉ t.neighbors u) :
    t.branch u via = ∅ := by
  unfold branch
  rw [contains_eq_false.2 hout, if_neg Bool.false_ne_true]

namespace Grown

variable {t : SpanningTree} {u v via x : NodeId}

/-- The search for a branch finds what edges lead to that do not lead back to where it is seen
from. -/
theorem mem_branch_iff_reached (h : Grown t) (hvia : via ∈ t.neighbors u) :
    x ∈ t.branch u via ↔
      Relation.ReflTransGen (fun a b => b ∈ (t.neighbors a).erase u) via x := by
  have hinside : ∀ a, ∀ b ∈ (t.neighbors a).erase u, b ∈ t.nodes.toList := fun a b hb =>
    h.mem_nodes_of_neighbors a b (mem_erase.1 hb).2
  have hfuel : t.nodes.toList.length ≤ t.size := by
    rw [Std.ExtTreeSet.length_toList, t.size_nodes]
  unfold branch
  rw [if_pos (Std.ExtTreeSet.contains_iff_mem.2 hvia)]
  exact Graph.mem_explore hinside (h.mem_nodes_of_neighbors u via hvia) hfuel

theorem reached_of_walk (h : Grown t) (walk : t.graph.Walk v x) (havoids : u ∉ walk.support) :
    Relation.ReflTransGen (fun a b => b ∈ (t.neighbors a).erase u) v x := by
  induction walk with
  | nil => exact .refl
  | cons hadj walk ih =>
    rw [SimpleGraph.Walk.support_cons, List.mem_cons, not_or] at havoids
    refine .head (mem_erase.2 ⟨?_, h.adj_iff.1 hadj⟩) (ih havoids.2)
    rintro rfl
    exact havoids.2 walk.start_mem_support

/-- A branch holds the nodes to which a walk leads from its neighbor without the node that it is seen
from. -/
theorem mem_branch_iff_walk (h : Grown t) (hvia : via ∈ t.neighbors u) :
    x ∈ t.branch u via ↔ ∃ walk : t.graph.Walk via x, u ∉ walk.support := by
  rw [h.mem_branch_iff_reached hvia]
  constructor
  · intro hreached
    induction hreached with
    | refl =>
      refine ⟨.nil, fun hmem => (h.adj_iff.2 hvia).ne ?_⟩
      exact List.mem_singleton.1 hmem
    | tail _ hstep ih =>
      obtain ⟨walk, havoids⟩ := ih
      obtain ⟨hne, hneighbor⟩ := mem_erase.1 hstep
      refine ⟨walk.concat (h.adj_iff.2 hneighbor), ?_⟩
      rw [SimpleGraph.Walk.support_concat, List.mem_append, List.mem_singleton, not_or]
      exact ⟨havoids, Ne.symm hne⟩
  · rintro ⟨walk, havoids⟩
    exact h.reached_of_walk walk havoids

/-- Of a path with a second node the rest keeps off the first one. -/
theorem mem_branch_of_leadsOver (h : Grown t) (hleads : t.LeadsOver u via v) :
    via ∈ t.neighbors u ∧ v ∈ t.branch u via := by
  obtain ⟨path, hpath, hsecond⟩ := hleads
  cases path with
  | nil => nomatch hsecond
  | @cons _ next _ hadj rest =>
    have hvia : next = via := by
      rw [SimpleGraph.Walk.support_cons, List.getElem?_cons_succ, ← rest.cons_tail_support]
        at hsecond
      exact Option.some.inj hsecond
    subst hvia
    have hneighbor := h.adj_iff.1 hadj
    have havoids := (SimpleGraph.Walk.cons_isPath_iff hadj rest).1 hpath |>.2
    exact ⟨hneighbor, (h.mem_branch_iff_walk hneighbor).2 ⟨rest, havoids⟩⟩

theorem leadsOver_cons (hadj : t.graph.Adj u via) {rest : t.graph.Walk via v}
    (hpath : (SimpleGraph.Walk.cons hadj rest).IsPath) : t.LeadsOver u via v := by
  refine ⟨.cons hadj rest, hpath, ?_⟩
  rw [SimpleGraph.Walk.support_cons, List.getElem?_cons_succ, ← rest.cons_tail_support]
  rfl

theorem exists_leadsOver (h : Grown t) (hu : u ∈ t.nodes) (hv : v ∈ t.nodes) (hne : u ≠ v) :
    ∃ via, t.LeadsOver u via v := by
  obtain ⟨path, hpath⟩ := (h.reachable hu hv).exists_isPath
  cases path with
  | nil => exact absurd rfl hne
  | cons hadj rest => exact ⟨_, leadsOver_cons hadj hpath⟩

/-- **A branch holds the nodes to which the path starts over its neighbor.** -/
theorem mem_branch_iff (h : Grown t) (hvia : via ∈ t.neighbors u) :
    v ∈ t.branch u via ↔ t.LeadsOver u via v := by
  constructor
  · intro hv
    obtain ⟨walk, havoids⟩ := (h.mem_branch_iff_walk hvia).1 hv
    -- without its detours the walk still keeps off the node
    have hpath : (SimpleGraph.Walk.cons (h.adj_iff.2 hvia) walk.bypass).IsPath := by
      rw [SimpleGraph.Walk.cons_isPath_iff]
      exact ⟨walk.bypass_isPath, fun hmem => havoids (walk.support_bypass_subset_support hmem)⟩
    exact leadsOver_cons _ hpath
  · exact fun hleads => (h.mem_branch_of_leadsOver hleads).2

theorem mem_branch_self (h : Grown t) (hv : v ∈ t.neighbors u) : v ∈ t.branch u v :=
  (h.mem_branch_iff_reached hv).2 .refl

/-- A branch does not hold the node that it is seen from. -/
theorem ne_of_mem_branch (h : Grown t) (hv : v ∈ t.neighbors u) (hx : x ∈ t.branch u v) :
    x ≠ u := by
  obtain ⟨walk, havoids⟩ := (h.mem_branch_iff_walk hv).1 hx
  rintro rfl
  exact havoids walk.end_mem_support

/-- Different neighbors have nothing in common behind them, since there is only one path. -/
theorem branch_disjoint (h : Grown t) {w : NodeId} (hv : v ∈ t.neighbors u)
    (hw : w ∈ t.neighbors u) (hne : v ≠ w) (hx : x ∈ t.branch u v) : x ∉ t.branch u w := by
  intro hx'
  obtain ⟨path, hpath, hsecond⟩ := (h.mem_branch_iff hv).1 hx
  obtain ⟨path', hpath', hsecond'⟩ := (h.mem_branch_iff hw).1 hx'
  have hsame : path = path' :=
    congrArg Subtype.val ((h.acyclic.subsingleton_path u x).elim ⟨path, hpath⟩ ⟨path', hpath'⟩)
  rw [hsame, hsecond'] at hsecond
  exact hne (Option.some.inj hsecond).symm

/-- The branches hold all nodes but the one they are seen from. -/
theorem exists_branch_iff (h : Grown t) (hu : u ∈ t.nodes) :
    (∃ v ∈ t.neighbors u, x ∈ t.branch u v) ↔ x ∈ t.nodes ∧ x ≠ u := by
  constructor
  · rintro ⟨v, hv, hx⟩
    obtain ⟨walk, -⟩ := (h.mem_branch_iff_walk hv).1 hx
    have hnode := (h.mem_nodes_of_adj (h.adj_iff.2 hv)).2
    exact ⟨h.mem_nodes_of_walk walk hnode walk.end_mem_support, h.ne_of_mem_branch hv hx⟩
  · rintro ⟨hx, hne⟩
    obtain ⟨via, hleads⟩ := h.exists_leadsOver hu hx (Ne.symm hne)
    exact ⟨via, h.mem_branch_of_leadsOver hleads⟩

end Grown

end SpanningTree

end Meshcast
