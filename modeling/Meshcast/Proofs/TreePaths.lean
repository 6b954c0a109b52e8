import Mathlib.Data.Set.Card
import Meshcast.Proofs.MinimumTrees
import Meshcast.Proofs.TreeWays

/-!
# Meshcast — what a spanning tree says about ways

What a tree answers is about the graph of its edges: the way between two nodes is the one path
between them, a branch is what the ways over a neighbor lead to, and the least bandwidth on a way is
the least of the bandwidths of its nodes.

* **`Grown.ncard_edgeSet`** — how many edges a tree has.
* **`Grown.mem_branch_iff_path?`** — a branch in terms of ways.
* **`isLeast_foldl_min`**, **`Grown.isLeast_lowestBandwidth?`** — the least bandwidth, one component
  at a time.
* **`tree_queries_exact`** — the result.
-/

namespace Meshcast

namespace SpanningTree

/-! ## Edges -/

/-- A tree has one edge less than nodes. -/
theorem Grown.ncard_edgeSet {t : SpanningTree} (h : t.Grown) :
    t.graph.edgeSet.Finite ∧ t.graph.edgeSet.ncard + 1 = t.nodes.size := by
  induction h with
  | singleton root =>
    rw [graph_singleton, SimpleGraph.edgeSet_bot, Set.ncard_empty]
    exact ⟨Set.finite_empty, rfl⟩
  | @attach t child parent weight grown new there ih =>
    obtain ⟨hfinite, hcard⟩ := ih
    have hne : parent ≠ child := fun heq => new (heq ▸ there)
    have hedges : (t.attach child parent weight).graph.edgeSet
        = insert s(parent, child) t.graph.edgeSet := by
      rw [graph_attach, SimpleGraph.edgeSet_sup, SimpleGraph.edgeSet_edge_of_ne hne,
        Set.union_singleton]
    have hnew : s(parent, child) ∉ t.graph.edgeSet :=
      fun hadj => new (grown.mem_nodes_of_adj hadj).2
    rw [hedges, Set.ncard_insert_of_notMem hnew hfinite, hcard,
      nodes_attach weight there, Std.ExtTreeSet.size_insert,
      if_neg (mt Std.ExtTreeSet.contains_iff_mem.1 new)]
    exact ⟨hfinite.insert _, rfl⟩

/-! ## Branches -/

namespace Grown

variable {t : SpanningTree}

/-- A branch holds the nodes to which the way leads over its neighbor. -/
theorem mem_branch_iff_path? (h : t.Grown) {u via x : NodeId} :
    x ∈ t.branch u via ↔ ∃ way, t.path? u x = some way ∧ way[1]? = some via := by
  constructor
  · intro hx
    have hvia : via ∈ t.neighbors u := by
      by_contra hout
      rw [branch_eq_empty t hout] at hx
      exact Std.ExtTreeSet.not_mem_empty hx
    have hu := (h.mem_nodes_of_adj (h.adj_iff.2 hvia)).1
    obtain ⟨path, hpath, hsecond⟩ := (h.mem_branch_iff hvia).1 hx
    have hnode := ((h.exists_branch_iff hu).1 ⟨via, hvia, hx⟩).1
    exact ⟨_, h.path?_eq_some_iff.2 ⟨hu, hnode, ⟨path, hpath⟩, rfl⟩, hsecond⟩
  · rintro ⟨way, hway, hsecond⟩
    obtain ⟨-, -, path, rfl⟩ := h.path?_eq_some_iff.1 hway
    exact (h.mem_branch_of_leadsOver ⟨path.1, path.2, hsecond⟩).2

/-- Seen from one of its nodes, a tree falls apart into branches. -/
theorem existsUnique_branch_iff (h : t.Grown) {u x : NodeId} (hu : u ∈ t.nodes) :
    (∃! via, via ∈ t.neighbors u ∧ x ∈ t.branch u via) ↔ x ∈ t.nodes ∧ x ≠ u := by
  rw [← h.exists_branch_iff hu]
  constructor
  · exact fun hunique => hunique.exists
  · rintro ⟨via, hvia, hx⟩
    refine ⟨via, ⟨hvia, hx⟩, fun other hother => ?_⟩
    by_contra hne
    exact h.branch_disjoint hother.1 hvia hne hother.2 hx

end Grown

/-! ## Bandwidths -/

/-- Of several bandwidths the least one in some component, which is a component of the least one. -/
theorem isLeast_foldl_min {f : Bandwidth → ℕ} (hf : ∀ a b, f (a.min b) = min (f a) (f b))
    (first : Bandwidth) (rest : List Bandwidth) :
    IsLeast {n | ∃ b ∈ first :: rest, f b = n} (f (rest.foldl Bandwidth.min first)) := by
  induction rest generalizing first with
  | nil => simp
  | cons next rest ih =>
    obtain ⟨hmem, hle⟩ := ih (first.min next)
    have hboth : f (rest.foldl Bandwidth.min (first.min next)) ≤ min (f first) (f next) :=
      hle ⟨_, List.mem_cons_self, hf first next⟩
    rw [List.foldl_cons]
    refine ⟨?_, ?_⟩
    · obtain ⟨b, hb, heq⟩ := hmem
      rcases List.mem_cons.1 hb with rfl | hb
      · rw [← heq, hf]
        rcases min_choice (f first) (f next) with hmin | hmin
        · exact ⟨first, by simp, hmin.symm⟩
        · exact ⟨next, by simp, hmin.symm⟩
      · exact ⟨b, by simp [hb], heq⟩
    · rintro _ ⟨b, hb, rfl⟩
      rcases List.mem_cons.1 hb with rfl | hb
      · exact hboth.trans (min_le_left _ _)
      · rcases List.mem_cons.1 hb with rfl | hb
        · exact hboth.trans (min_le_right _ _)
        · exact hle ⟨b, List.mem_cons_of_mem _ hb, rfl⟩

namespace Grown

variable {t : SpanningTree}

/-- The way from the root, without the root. -/
theorem mem_tail_iff (h : t.Grown) {node x : NodeId} {way : List NodeId}
    (hway : t.path? t.root node = some way) : x ∈ way.tail ↔ x ∈ way ∧ x ≠ t.root := by
  obtain ⟨-, -, path, rfl⟩ := h.path?_eq_some_iff.1 hway
  have hnodup := path.2.support_nodup
  rw [← path.1.cons_tail_support] at hnodup ⊢
  rw [List.nodup_cons] at hnodup
  rw [List.tail_cons, List.mem_cons]
  constructor
  · intro hx
    refine ⟨.inr hx, ?_⟩
    rintro rfl
    exact hnodup.1 hx
  · rintro ⟨hx, hne⟩
    exact hx.resolve_left hne

variable {registry : Registry} {node : NodeId}

theorem lowestBandwidth?_of_way {way : List NodeId} (hway : t.path? t.root node = some way) :
    t.lowestBandwidth? registry node =
      match way.tail.filterMap registry.bandwidth? with
      | [] => none
      | first :: rest => some (rest.foldl Bandwidth.min first) := by
  unfold lowestBandwidth?
  rw [hway]
  rfl

/-- If all nodes of the tree are known, a bandwidth is answered for all of them but the root. -/
theorem lowestBandwidth?_eq_none_iff (h : t.Grown)
    (hknown : ∀ x ∈ t.nodes, ∃ b, registry.bandwidth? x = some b) :
    t.lowestBandwidth? registry node = none ↔ node = t.root ∨ node ∉ t.nodes := by
  have hroot := h.root_mem
  by_cases hnode : node ∈ t.nodes
  · rw [or_iff_left (not_not_intro hnode)]
    constructor
    · intro hnone
      by_contra hne
      obtain ⟨path, hway⟩ := h.exists_path hroot hnode
      -- the node itself is on the way and has a bandwidth
      obtain ⟨b, hb⟩ := hknown node hnode
      have hmem : b ∈ path.1.support.tail.filterMap registry.bandwidth? :=
        List.mem_filterMap.2 ⟨node, (h.mem_tail_iff hway).2 ⟨path.1.end_mem_support, hne⟩, hb⟩
      rw [lowestBandwidth?_of_way hway] at hnone
      split at hnone
      · rename_i hempty
        rw [hempty] at hmem
        nomatch hmem
      · nomatch hnone
    · rintro rfl
      rw [lowestBandwidth?_of_way (h.path?_eq_some_iff.2 ⟨hroot, hroot, .nil, rfl⟩)]
      rfl
  · have hway : t.path? t.root node = none := path?_eq_none t fun hin => hnode hin.2
    unfold lowestBandwidth?
    rw [hway]
    exact iff_of_true rfl (.inr hnode)

/-- **The least bandwidth.** In each component it is the least one of the nodes on the way, not
counting the root. -/
theorem isLeast_lowestBandwidth? (h : t.Grown) {f : Bandwidth → ℕ}
    (hf : ∀ a b, f (a.min b) = min (f a) (f b)) {way : List NodeId} {lowest : Bandwidth}
    (hway : t.path? t.root node = some way)
    (hlowest : t.lowestBandwidth? registry node = some lowest) :
    IsLeast {n | ∃ x ∈ way, x ≠ t.root ∧ ∃ b, registry.bandwidth? x = some b ∧ f b = n}
      (f lowest) := by
  rw [lowestBandwidth?_of_way hway] at hlowest
  split at hlowest
  · nomatch hlowest
  · rename_i first rest hlist
    obtain rfl := Option.some.inj hlowest
    have hset : {n | ∃ x ∈ way, x ≠ t.root ∧ ∃ b, registry.bandwidth? x = some b ∧ f b = n}
        = {n | ∃ b ∈ first :: rest, f b = n} := by
      ext n
      simp only [← hlist, List.mem_filterMap, h.mem_tail_iff hway, Set.mem_ofPred_eq]
      constructor
      · rintro ⟨x, hx, hne, b, hb, hn⟩
        exact ⟨b, ⟨x, ⟨hx, hne⟩, hb⟩, hn⟩
      · rintro ⟨b, ⟨x, ⟨hx, hne⟩, hb⟩, hn⟩
        exact ⟨x, hx, hne, b, hb, hn⟩
    rw [hset]
    exact isLeast_foldl_min hf first rest

end Grown

/-! ## All questions -/

/-- **A spanning tree answers as its graph does.** Whatever tree was built, parents and neighbors
describe the same edges, one less than there are nodes. There is a way between two nodes exactly if
both are in the tree, and it is the only path between them. A branch holds the nodes to which the way
leads over its neighbor, so every node but the one they are seen from is in exactly one branch, and
there is no branch behind a node that is no neighbor. If all nodes of the tree are known, a least
bandwidth is answered for all of them but the root, and in each component it is the least one of the
nodes on the way, not counting the root. -/
theorem tree_queries_exact {t : SpanningTree} (h : t.Built) :
    -- the edges
    (∀ u v, t.graph.Adj u v ↔ v ∈ t.neighbors u)
    ∧ (∀ u v, t.graph.Adj u v ↔ t.parent? v = some u ∨ t.parent? u = some v)
    ∧ (∀ u v, t.parent? v = some u ↔ ∃ a ∈ t.edges, a.child = v ∧ a.parent = u)
    ∧ (∀ u v, t.graph.Adj u v → u ∈ t.nodes ∧ v ∈ t.nodes)
    ∧ t.edges.length + 1 = t.nodes.size ∧ t.graph.edgeSet.ncard + 1 = t.nodes.size
    -- the ways
    ∧ (∀ u v, (∃ way, t.path? u v = some way) ↔ u ∈ t.nodes ∧ v ∈ t.nodes)
    ∧ (∀ u v way, t.path? u v = some way →
        ∃ path : t.graph.Path u v, path.1.support = way ∧ ∀ other, other = path)
    -- the branches
    ∧ (∀ u via x, x ∈ t.branch u via ↔ ∃ way, t.path? u x = some way ∧ way[1]? = some via)
    ∧ (∀ u ∈ t.nodes, ∀ x,
        (∃! via, via ∈ t.neighbors u ∧ x ∈ t.branch u via) ↔ x ∈ t.nodes ∧ x ≠ u)
    ∧ (∀ u via, via ∉ t.neighbors u → t.branch u via = ∅)
    -- the least bandwidth
    ∧ ∀ registry : Registry, (∀ x ∈ t.nodes, ∃ b, registry.bandwidth? x = some b) → ∀ node,
        (t.lowestBandwidth? registry node = none ↔ node = t.root ∨ node ∉ t.nodes)
        ∧ ∀ lowest, t.lowestBandwidth? registry node = some lowest →
          ∃ way, t.path? t.root node = some way
            ∧ ∀ f ∈ [Bandwidth.maxInBytes, Bandwidth.maxInMessages],
              IsLeast {n | ∃ x ∈ way, x ≠ t.root ∧ ∃ b, registry.bandwidth? x = some b ∧ f b = n}
                (f lowest) := by
  have hgrown := h.grown
  refine ⟨fun u v => hgrown.adj_iff, fun u v => hgrown.adj_iff.trans hgrown.mem_neighbors_iff,
    fun u v => t.parent?_eq_some_iff, fun u v => hgrown.mem_nodes_of_adj, hgrown.length_edges,
    hgrown.ncard_edgeSet.2, fun u v => ?_, fun u v way hway => ?_,
    fun u via x => hgrown.mem_branch_iff_path?, fun u hu x => hgrown.existsUnique_branch_iff hu,
    fun u via hout => branch_eq_empty t hout, fun registry hknown node => ?_⟩
  · constructor
    · rintro ⟨way, hway⟩
      obtain ⟨hu, hv, -⟩ := hgrown.path?_eq_some_iff.1 hway
      exact ⟨hu, hv⟩
    · rintro ⟨hu, hv⟩
      obtain ⟨path, hpath⟩ := hgrown.exists_path hu hv
      exact ⟨_, hpath⟩
  · obtain ⟨-, -, path, hpath⟩ := hgrown.path?_eq_some_iff.1 hway
    exact ⟨path, hpath, fun other => (hgrown.acyclic.subsingleton_path u v).elim other path⟩
  · refine ⟨hgrown.lowestBandwidth?_eq_none_iff hknown, fun lowest hlowest => ?_⟩
    cases hway : t.path? t.root node with
    | none =>
      unfold lowestBandwidth? at hlowest
      rw [hway] at hlowest
      nomatch hlowest
    | some way =>
      refine ⟨way, rfl, fun f hf => ?_⟩
      have hmin : ∀ a b : Bandwidth, f (a.min b) = min (f a) (f b) := by
        rcases List.mem_pair.1 hf with rfl | rfl
        · exact fun _ _ => rfl
        · exact fun _ _ => rfl
      exact hgrown.isLeast_lowestBandwidth? hmin hway hlowest

/-- On the way from node 0 over nodes 1 and 2 to node 3, node 1 takes in the fewest bytes and node 2
the fewest messages. The way from node 4 to node 3 is the only path between them. -/
theorem tree_queries_exact_forked :
    let edges : List (NodeId × NodeId) := [(⟨0⟩, ⟨1⟩), (⟨1⟩, ⟨2⟩), (⟨2⟩, ⟨3⟩), (⟨1⟩, ⟨4⟩)]
    let t : SpanningTree := edges.foldl (fun t e => t.attach e.2 e.1 1) (.singleton ⟨0⟩)
    let registry := [(⟨0, 0⟩ : Bandwidth), ⟨5, 9⟩, ⟨8, 6⟩, ⟨8, 9⟩, ⟨1, 1⟩].zipIdx.foldl
      (fun r entry => r.setBandwidth ⟨entry.2⟩ entry.1)
      (Registry.empty.internAll [⟨10⟩, ⟨11⟩, ⟨12⟩, ⟨13⟩, ⟨14⟩]).2
    t.Built ∧ (∀ x ∈ t.nodes, ∃ b, registry.bandwidth? x = some b)
      ∧ t.lowestBandwidth? registry ⟨3⟩ = some ⟨5, 6⟩
      ∧ IsLeast {n | ∃ x ∈ [(⟨0⟩ : NodeId), ⟨1⟩, ⟨2⟩, ⟨3⟩], x ≠ ⟨0⟩
          ∧ ∃ b, registry.bandwidth? x = some b ∧ b.maxInMessages = n} 6
      ∧ t.lowestBandwidth? registry ⟨9⟩ = none
      ∧ ∀ path : t.graph.Path ⟨4⟩ ⟨3⟩, path.1.support = [⟨4⟩, ⟨1⟩, ⟨2⟩, ⟨3⟩] := by
  intro edges t registry
  have hbuilt : t.Built := by
    let g : Graph := edges.foldl (fun g e => g.connect e.1 e.2 1) {}
    have hfound : g.minimumSpanningTree ⟨0⟩ = .ok t := by decide +kernel
    exact .minimum hfound
  have hall : t.nodes.toList.all (fun x => (registry.bandwidth? x).isSome) = true := by
    decide +kernel
  have hknown : ∀ x ∈ t.nodes, ∃ b, registry.bandwidth? x = some b := fun x hx =>
    Option.isSome_iff_exists.1 (List.all_eq_true.1 hall x (Std.ExtTreeSet.mem_toList.2 hx))
  have hlowest : t.lowestBandwidth? registry ⟨3⟩ = some ⟨5, 6⟩ := by decide +kernel
  have hway : t.path? ⟨0⟩ ⟨3⟩ = some [⟨0⟩, ⟨1⟩, ⟨2⟩, ⟨3⟩] := by decide +kernel
  have hother : t.path? ⟨4⟩ ⟨3⟩ = some [⟨4⟩, ⟨1⟩, ⟨2⟩, ⟨3⟩] := by decide +kernel
  obtain ⟨-, -, -, -, -, -, -, hpaths, -, -, -, hbandwidth⟩ := tree_queries_exact hbuilt
  obtain ⟨way, hway', hleast⟩ := (hbandwidth registry hknown ⟨3⟩).2 _ hlowest
  obtain rfl := Option.some.inj (hway.symm.trans hway')
  refine ⟨hbuilt, hknown, hlowest, hleast Bandwidth.maxInMessages (by simp), ?_, fun path => ?_⟩
  · exact (hbandwidth registry hknown ⟨9⟩).1.2 (.inr (by decide +kernel))
  · obtain ⟨only, honly, hunique⟩ := hpaths _ _ _ hother
    rw [hunique path, honly]

end SpanningTree

end Meshcast
