import Mathlib.Order.Bounds.Basic
import Meshcast.Proofs.EdgeExchange
import Meshcast.Proofs.Elimination
import Meshcast.Proofs.TreeGraph
import Meshcast.Proofs.TreeSearch

/-!
# Meshcast — the spanning tree that the search finds is a lightest one

The search takes the lightest edge that leads out of the tree, over and over. It comes to an end
with all the nodes in the tree, or with a part that no edge leads out of.

* **`Promising`** — what holds of the tree between two steps: its edges are edges of the graph, and
  some spanning tree that is as light as any other one has them all.
* **`Promising.attach`** — joining the nearest node keeps it so.
* **`component_of_stuck`** — the search gets stuck with just those nodes that hang together with the
  root.
* **`minimumSpanningTree_exact`** — the result.
-/

namespace Meshcast

theorem SpanningTree.Grown.totalWeight_attach {t : SpanningTree} (h : t.Grown)
    {child parent : NodeId} (weight : Weight) (new : child ∉ t.nodes) :
    (t.attach child parent weight).totalWeight = weight + t.totalWeight := by
  rw [totalWeight_eq, ((h.edges_attach weight new).map _).sum_eq, totalWeight_eq]
  exact List.sum_cons

namespace Graph

variable {g : Graph} {root node : NodeId} {t : SpanningTree} {frontier : Frontier}
  {known : Nearness}

theorem undirected_adj_of_weight (h : g.Coherent) {u v : NodeId} {w : Weight}
    (hw : g.undirectedWeight? u v = some w) : g.undirected.Adj u v := by
  rw [h.undirected_adj]
  unfold undirectedWeight? at hw
  cases huv : g.weight? u v with
  | some a => exact .inl ⟨a, huv⟩
  | none =>
    rw [huv] at hw
    exact .inr ⟨w, hw⟩

/-! ## The tree between two steps -/

/-- The tree has edges of the graph, at their weights, and some lightest spanning tree has all of
them. -/
structure Promising (g : Graph) (root : NodeId) (t : SpanningTree) : Prop where
  root_eq : t.root = root
  grown : t.Grown
  le : t.graph ≤ g.undirected
  weight_eq : ∀ a ∈ t.edges, g.undirectedWeight? a.parent a.child = some a.weight
  totalWeight_eq : t.totalWeight = g.weightOf t.graph
  extensible : g.Extensible t.graph

theorem promising_singleton (g : Graph) (root : NodeId) : g.Promising root (.singleton root) where
  root_eq := rfl
  grown := .singleton root
  le := by
    rw [SpanningTree.graph_singleton]
    exact bot_le
  weight_eq := nofun
  totalWeight_eq := by
    rw [SpanningTree.graph_singleton, g.weightOf_bot]
    rfl
  extensible := by
    rw [SpanningTree.graph_singleton]
    exact g.extensible_bot

/-- **The nearest node may join.** It is nearest over an edge that leads out of the tree, and no
lighter edge does. -/
theorem Promising.attach (hg : g.Coherent) (h : g.Promising root t) (hs : frontier.Surrounds g t)
    (hnearest : nearest? frontier = some (node, known)) {p : NodeId} (hp : p ∈ t.nodes)
    (hout : node ∉ t.nodes) (hweight : g.undirectedWeight? p node = some known.weight) :
    g.Promising root (t.attach node p known.weight) := by
  have hne : p ≠ node := fun heq => hout (heq ▸ hp)
  have hadj : g.undirected.Adj p node := undirected_adj_of_weight hg hweight
  have hgraph := SpanningTree.graph_attach t node p known.weight
  refine ⟨h.root_eq, h.grown.attach known.weight hout hp, ?_, ?_, ?_, ?_⟩
  · rw [hgraph]
    exact sup_le h.le ((SimpleGraph.edge_le_iff _).2 (.inr hadj))
  · intro a ha
    rcases List.mem_cons.1 ((h.grown.edges_attach known.weight hout).mem_iff.1 ha) with rfl | ha
    · exact hweight
    · exact h.weight_eq a ha
  · have hnew : ¬t.graph.Adj p node := fun hadj => hout (h.grown.mem_nodes_of_adj hadj).2
    rw [hgraph, g.weightOf_sup_edge (hg.finite_edgeSet h.le) hne hnew, edgeWeight_mk hweight,
      h.grown.totalWeight_attach known.weight hout, h.totalWeight_eq]
  · rw [hgraph]
    refine h.extensible.sup_edge hg {x | x ∈ t.nodes}
      (fun a b hab => h.grown.mem_nodes_of_adj hab) hadj hp hout ?_
    intro a ha b hb hab
    obtain ⟨w, hw, -⟩ := undirectedWeight?_of_hasEdge (hg.undirected_adj.1 hab)
    rw [edgeWeight_mk hweight, edgeWeight_mk hw]
    exact hs.nearest_le hnearest ha (hg.mem_of_undirected_adj hab).2 hb hw

/-! ## The end of the search -/

/-- Any two nodes hang together, if edges may be taken in either direction. -/
def WeaklyConnected (g : Graph) : Prop :=
  ∀ u ∈ g.nodes, ∀ v ∈ g.nodes, g.undirected.Reachable u v

/-- The tree is a lightest one of the spanning trees, and it has the given root. -/
structure IsMinimumSpanningTree (g : Graph) (root : NodeId) (t : SpanningTree) : Prop where
  root_eq : t.root = root
  nodes_eq : t.nodes = g.nodes
  length_edges : t.edges.length + 1 = g.nodeCount
  spanning : g.IsSpanningTree t.graph
  weight_eq : ∀ a ∈ t.edges, g.undirectedWeight? a.parent a.child = some a.weight
  lightest : IsLeast {w | ∃ T, g.IsSpanningTree T ∧ g.weightOf T = w} t.totalWeight

theorem Promising.isMinimumSpanningTree (hg : g.Coherent) (h : g.Promising root t)
    (hnodes : ∀ x, x ∈ t.nodes ↔ x ∈ g.nodes) : g.IsMinimumSpanningTree root t := by
  have heq : t.nodes = g.nodes := Std.ExtTreeSet.ext_mem fun x => hnodes x
  have hspanning : g.IsSpanningTree t.graph :=
    ⟨h.le, h.grown.acyclic, fun u hu v hv => h.grown.reachable ((hnodes u).2 hu) ((hnodes v).2 hv)⟩
  refine ⟨h.root_eq, heq, ?_, hspanning, h.weight_eq, ?_, ?_⟩
  · rw [h.grown.length_edges, heq]
    rfl
  · exact ⟨t.graph, hspanning, h.totalWeight_eq.symm⟩
  · -- the edges of the tree are in one that is as light as `T`, and that has at least these
    rintro w ⟨T, hT, rfl⟩
    obtain ⟨T', hT', hle, hweight⟩ := h.extensible T hT
    rw [h.totalWeight_eq]
    exact (g.weightOf_mono hle (hg.finite_edgeSet hT'.le)).trans hweight

/-- If no edge leads out of the tree, the tree has the nodes that hang together with its root. -/
theorem Promising.mem_nodes_iff (h : g.Promising root t)
    (hclosed : ∀ a ∈ t.nodes, ∀ b, g.undirected.Adj a b → b ∈ t.nodes) (x : NodeId) :
    x ∈ t.nodes ↔ g.undirected.Reachable root x := by
  have hroot : root ∈ t.nodes := h.root_eq ▸ h.grown.root_mem
  constructor
  · exact fun hx => (h.grown.reachable hroot hx).mono h.le
  · intro hreach
    rw [SimpleGraph.reachable_iff_reflTransGen] at hreach
    induction hreach with
    | refl => exact hroot
    | tail _ hadj ih => exact hclosed _ ih _ hadj

/-- **Where the search gets stuck**, the nodes that hang together with the root have been reached,
and there are others. -/
theorem component_of_stuck (hg : g.Coherent)
    (hlight : ∀ u v w, g.weight? u v = some w → w < maxWeight) (h : g.Promising root t)
    (hs : frontier.Surrounds g t) (hnearest : nearest? frontier = some (node, known))
    (hstuck : known.weight = maxWeight) :
    ¬g.WeaklyConnected
      ∧ g.nodeCount - frontier.size = {x | g.undirected.Reachable root x}.ncard := by
  have hmem := h.mem_nodes_iff fun a ha b hab =>
    hs.closed_of_stuck hlight hnearest hstuck ha (hg.mem_of_undirected_adj hab).2
      (hg.undirected_adj.1 hab)
  have hroot : root ∈ g.nodes := hs.subset root ((hmem root).2 (.refl root))
  obtain ⟨hnode, hout⟩ := (hs.mem_iff node).1
    (mem_iff_exists_getElem?.2 ⟨known, nearest?_eq_some hnearest⟩)
  refine ⟨fun hconnected => hout ((hmem node).2 (hconnected root hroot node hnode)), ?_⟩
  simp only [← hmem]
  rw [ncard_setOf_mem, ← hs.size_add, Nat.add_sub_cancel]

/-- How a search from a node of the graph may end. -/
theorem minimumSpanningTree_cases (hg : g.Coherent)
    (hlight : ∀ u v w, g.weight? u v = some w → w < maxWeight) (hroot : root ∈ g.nodes) :
    (∃ t, g.minimumSpanningTree root = .ok t ∧ g.IsMinimumSpanningTree root t)
      ∨ ¬g.WeaklyConnected ∧ g.minimumSpanningTree root =
        .error (.disconnected {x | g.undirected.Reachable root x}.ncard g.nodeCount) := by
  have hfirst := surrounds_relax_startingFrontier hg hroot
  have hsize := hfirst.size_lt (SpanningTree.mem_nodes_singleton.2 rfl)
  rw [minimumSpanningTree_eq hroot]
  refine growTree_induction
    (fun t frontier => frontier.Surrounds g t ∧ g.Promising root t)
    (fun result => (∃ t, result = .ok t ∧ g.IsMinimumSpanningTree root t)
      ∨ ¬g.WeaklyConnected
        ∧ result = .error (.disconnected {x | g.undirected.Reachable root x}.ncard g.nodeCount))
    ?_ ?_ ?_ _ ⟨hfirst, g.promising_singleton root⟩ (by omega)
  · rintro t frontier node known ⟨hs, h⟩ hnearest hreached
    obtain ⟨hnode, hout, p, hp, hweight, hjoined⟩ := hs.exists_parent hnearest hreached
    rw [hjoined]
    exact ⟨hs.relax hg hnode fun x => SpanningTree.mem_nodes_attach known.weight hp,
      h.attach hg hs hnearest hp hout hweight⟩
  · rintro t frontier node known ⟨hs, h⟩ hnearest hstuck
    obtain ⟨hapart, hreached⟩ := component_of_stuck hg hlight h hs hnearest hstuck
    exact .inr ⟨hapart, by rw [hreached]⟩
  · rintro t frontier ⟨hs, h⟩ hempty
    exact .inl ⟨t, rfl, h.isMinimumSpanningTree hg (hs.mem_nodes_of_empty hempty)⟩

theorem IsMinimumSpanningTree.weaklyConnected (h : g.IsMinimumSpanningTree root t) :
    g.WeaklyConnected :=
  fun u hu v hv => (h.spanning.reachable u hu v hv).mono h.spanning.le

/-- **The search for a minimum spanning tree is exact.** Take any graph that operations made whose
edges all weigh less than the largest weight. The search fails for want of its root exactly if that
is no node of the graph. From a node it fails otherwise exactly if the nodes do not all hang
together in either direction of the edges, and it tells how many hang together with the root, and
how many there are. If they do, it finds a tree with that root over the nodes of the graph: with one
edge less than there are nodes, each at the weight between its ends, connected, without cycles, and
no spanning tree is lighter. -/
theorem minimumSpanningTree_exact (h : g.Built)
    (hlight : ∀ u v w, g.weight? u v = some w → w < maxWeight) (root : NodeId) :
    (g.minimumSpanningTree root = .error .missingRoot ↔ root ∉ g.nodes)
      ∧ (root ∈ g.nodes →
        (∀ reached total, g.minimumSpanningTree root = .error (.disconnected reached total) ↔
          ¬g.WeaklyConnected ∧ reached = {x | g.undirected.Reachable root x}.ncard
            ∧ total = g.nodeCount)
        ∧ (g.WeaklyConnected →
          ∃ t, g.minimumSpanningTree root = .ok t ∧ g.IsMinimumSpanningTree root t)) := by
  by_cases hroot : root ∈ g.nodes
  · have hcases := minimumSpanningTree_cases h.coherent hlight hroot
    refine ⟨?_, fun _ => ⟨fun reached total => ?_, fun hconnected => ?_⟩⟩
    · rcases hcases with ⟨t, heq, -⟩ | ⟨-, heq⟩ <;> simp [heq, hroot]
    · rcases hcases with ⟨t, heq, htree⟩ | ⟨hapart, heq⟩
      · simp [heq, htree.weaklyConnected]
      · simp [heq, hapart, eq_comm]
    · exact hcases.resolve_right fun hapart => hapart.1 hconnected
  · have hcontains : g.contains root = false := contains_eq_false.2 hroot
    refine ⟨iff_of_true ?_ hroot, fun hmem => absurd hmem hroot⟩
    unfold minimumSpanningTree
    rw [hcontains, if_neg Bool.false_ne_true]

/-- Both ways lead from node 0 to node 1, the heavier one is passed over; the lightest edges of
nodes 2 and 3 lead to them one way only, and against the search. With a node added that no edge
leads to, the search tells of the four that hang together. -/
theorem minimumSpanningTree_exact_oneWay :
    let edges : List Edge :=
      [⟨⟨0⟩, ⟨1⟩, 5⟩, ⟨⟨1⟩, ⟨0⟩, 2⟩, ⟨⟨2⟩, ⟨1⟩, 1⟩, ⟨⟨0⟩, ⟨2⟩, 4⟩, ⟨⟨3⟩, ⟨2⟩, 4⟩, ⟨⟨3⟩, ⟨0⟩, 3⟩]
    let g : Graph := edges.foldl (fun g e => g.addEdge e.source e.target e.weight) {}
    g.Built ∧ (∀ u v w, g.weight? u v = some w → w < maxWeight) ∧ ⟨0⟩ ∈ g.nodes
      ∧ g.WeaklyConnected
      ∧ (∃ t, g.minimumSpanningTree ⟨0⟩ = .ok t ∧ g.IsMinimumSpanningTree ⟨0⟩ t
        ∧ t.edges = [⟨⟨1⟩, ⟨0⟩, 2⟩, ⟨⟨2⟩, ⟨1⟩, 1⟩, ⟨⟨3⟩, ⟨0⟩, 3⟩])
      ∧ (g.addNode ⟨4⟩).minimumSpanningTree ⟨0⟩ = .error (.disconnected 4 5)
      ∧ ¬(g.addNode ⟨4⟩).WeaklyConnected
      ∧ {x | (g.addNode ⟨4⟩).undirected.Reachable ⟨0⟩ x}.ncard = 4 := by
  intro edges g
  have hbuilt : g.Built := List.foldlRecOn edges _ Built.empty fun _ h _ _ => h.addEdge _ _ _
  have hlight : ∀ u v w, g.weight? u v = some w → w < maxWeight := by
    have hedges : ∀ e ∈ g.edges, e.weight < maxWeight := by decide +kernel
    exact fun u v w hw => hedges ⟨u, v, w⟩ (mem_edges.2 hw)
  have hroot : (⟨0⟩ : NodeId) ∈ g.nodes := by decide +kernel
  have hfound : g.minimumSpanningTree ⟨0⟩
      = .ok (((SpanningTree.singleton ⟨0⟩).attach ⟨1⟩ ⟨0⟩ 2).attach ⟨2⟩ ⟨1⟩ 1 |>.attach ⟨3⟩ ⟨0⟩ 3) := by
    decide +kernel
  have hstuck : (g.addNode ⟨4⟩).minimumSpanningTree ⟨0⟩ = .error (.disconnected 4 5) := by
    decide +kernel
  obtain ⟨herror, hok⟩ := (minimumSpanningTree_exact hbuilt hlight ⟨0⟩).2 hroot
  have hconnected : g.WeaklyConnected := by
    by_contra hapart
    have herr := (herror _ _).2 ⟨hapart, rfl, rfl⟩
    rw [hfound] at herr
    cases herr
  obtain ⟨t, ht, htree⟩ := hok hconnected
  have hedges : t.edges = [⟨⟨1⟩, ⟨0⟩, 2⟩, ⟨⟨2⟩, ⟨1⟩, 1⟩, ⟨⟨3⟩, ⟨0⟩, 3⟩] := by
    rw [← Except.ok.inj (hfound.symm.trans ht)]
    decide +kernel
  have hlight' : ∀ u v w, (g.addNode ⟨4⟩).weight? u v = some w → w < maxWeight :=
    fun u v w hw => hlight u v w ((weight?_addNode g ⟨4⟩ u v).symm.trans hw)
  obtain ⟨herror, -⟩ := (minimumSpanningTree_exact (hbuilt.addNode ⟨4⟩) hlight' ⟨0⟩).2
    (mem_nodes_addNode.2 (.inr hroot))
  obtain ⟨hapart, hreached, -⟩ := (herror 4 5).1 hstuck
  exact ⟨hbuilt, hlight, hroot, hconnected, ⟨t, ht, htree, hedges⟩, hstuck, hapart, hreached.symm⟩

end Graph

end Meshcast
