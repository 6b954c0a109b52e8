import Mathlib.Data.List.Perm.Subperm
import Mathlib.Logic.Relation
import Mathlib.Tactic.ByContra
import Mathlib.Tactic.Tauto
import Meshcast.Proofs.Prim
import Meshcast.Proofs.WeightedGraph

/-!
# Meshcast — the search for a minimum spanning tree finds one

* **`Coherent.getElem?_relax`** — bringing the neighbors of a node up to date is all there is to do:
  in a coherent graph nothing changes for the rest of the frontier.
* **`Frontier.Encloses`** — what holds after each step: the frontier is the rest of the graph, and
  what a node of it knows is an edge to the tree.
* **`Frontier.Surrounds`** — in a coherent graph that edge is a lightest one, and a node that knows
  none has none.
* **`growTree_induction`** — the search by induction over its steps.
* **`exists_crossing`** — as long as a connected graph has a rest, an edge leads there.
* **`minimumSpanningTree_of_connected`** — in a connected graph the search succeeds, and its tree
  has all the nodes.
-/

namespace Meshcast

namespace Graph

variable {g : Graph}

/-! ## Edges in either direction -/

theorem undirectedWeight?_of_hasEdge {u v : NodeId} (h : g.HasEdge u v ∨ g.HasEdge v u) :
    ∃ w, g.undirectedWeight? u v = some w ∧ (g.weight? u v = some w ∨ g.weight? v u = some w) := by
  unfold undirectedWeight?
  cases huv : g.weight? u v with
  | some a =>
    cases hvu : g.weight? v u with
    | some b =>
      refine ⟨min a b, rfl, ?_⟩
      rcases Nat.le_total a b with hle | hle
      · exact .inl (congrArg some (Nat.min_eq_left hle).symm)
      · exact .inr (congrArg some (Nat.min_eq_right hle).symm)
    | none => exact ⟨a, rfl, .inl rfl⟩
  | none =>
    cases hvu : g.weight? v u with
    | some b => exact ⟨b, rfl, .inr rfl⟩
    | none =>
      rcases h with ⟨w, hw⟩ | ⟨w, hw⟩
      · rw [huv] at hw
        nomatch hw
      · rw [hvu] at hw
        nomatch hw

/-! ## The nearest node -/

/-- Nothing in the frontier is nearer than the nearest. -/
theorem nearest?_le {frontier : Frontier} {node : NodeId} {known : Nearness}
    (h : nearest? frontier = some (node, known)) {x : NodeId} {other : Nearness}
    (hx : frontier[x]? = some other) : known.weight ≤ other.weight := by
  have hfold : ∀ (list : List (NodeId × Nearness)) (best : Option (NodeId × Nearness))
      (found : NodeId × Nearness),
      list.foldl nearer best = some found →
      (∀ b, best = some b → found.2.weight ≤ b.2.weight)
        ∧ ∀ entry ∈ list, found.2.weight ≤ entry.2.weight := by
    intro list
    induction list with
    | nil =>
      intro best found h
      rw [List.foldl_nil] at h
      subst h
      constructor
      · intro b hb
        cases hb
        exact Nat.le_refl _
      · intro entry he
        nomatch he
    | cons first rest ih =>
      intro best found h
      obtain ⟨hbest, hrest⟩ := ih _ found h
      cases best with
      | none =>
        refine ⟨nofun, fun entry he => ?_⟩
        rcases List.mem_cons.1 he with rfl | he
        · exact hbest entry rfl
        · exact hrest entry he
      | some b =>
        unfold nearer at hbest
        dsimp only at hbest
        split at hbest
        · rename_i hless
          have hfirst := hbest first rfl
          refine ⟨fun c hc => ?_, fun entry he => ?_⟩
          · cases hc
            exact Nat.le_trans hfirst (Nat.le_of_lt hless)
          · rcases List.mem_cons.1 he with rfl | he
            · exact hfirst
            · exact hrest entry he
        · rename_i hless
          have hfirst := hbest b rfl
          refine ⟨fun c hc => ?_, fun entry he => ?_⟩
          · cases hc
            exact hfirst
          · rcases List.mem_cons.1 he with rfl | he
            · exact Nat.le_trans hfirst (Nat.le_of_not_lt hless)
            · exact hrest entry he
  rw [nearest?_eq] at h
  exact (hfold _ none _ h).2 (x, other) (Std.ExtTreeMap.mem_toList_iff_getElem?_eq_some.2 hx)

theorem exists_nearest? {frontier : Frontier} {x : NodeId} (hx : x ∈ frontier) :
    ∃ node known, nearest? frontier = some (node, known) := by
  have hfold : ∀ (list : List (NodeId × Nearness)) (best : NodeId × Nearness),
      ∃ found, list.foldl nearer (some best) = some found := by
    intro list
    induction list with
    | nil => exact fun best => ⟨best, rfl⟩
    | cons first rest ih =>
      intro best
      rw [List.foldl_cons]
      unfold nearer
      dsimp only
      split
      · exact ih first
      · exact ih best
  rw [nearest?_eq]
  cases hlist : frontier.toList with
  | nil =>
    obtain ⟨known, hknown⟩ := mem_iff_exists_getElem?.1 hx
    have hmem := Std.ExtTreeMap.mem_toList_iff_getElem?_eq_some.2 hknown
    rw [hlist] at hmem
    nomatch hmem
  | cons first rest =>
    obtain ⟨⟨node, known⟩, hfound⟩ := hfold rest first
    exact ⟨node, known, hfound⟩

/-- The nodes next to a node are those that an edge leads to or comes from, so for all others there
is nothing to account for. -/
theorem Coherent.getElem?_relax (h : g.Coherent) {node x : NodeId} {frontier : Frontier} :
    (g.relax node frontier)[x]? = frontier[x]?.map (g.nearerOver node x) := by
  rw [Graph.getElem?_relax]
  split
  · rfl
  · rename_i hapart
    unfold neighbors at hapart
    rw [Std.ExtTreeSet.mem_union_iff, mem_successors, h.mem_predecessors, not_or] at hapart
    have hnone : g.undirectedWeight? node x = none := by
      unfold undirectedWeight?
      rw [Option.eq_none_iff_forall_ne_some.2 fun w hw => hapart.1 ⟨w, hw⟩,
        Option.eq_none_iff_forall_ne_some.2 fun w hw => hapart.2 ⟨w, hw⟩]
    have hsame : g.nearerOver node x = id := by
      funext known
      unfold nearerOver
      rw [hnone]
      rfl
    rw [hsame, Option.map_id]
    rfl

theorem mem_relax {node x : NodeId} {frontier : Frontier} :
    x ∈ g.relax node frontier ↔ x ∈ frontier := by
  rw [Std.ExtTreeMap.mem_iff_isSome_getElem?, getElem?_relax, Std.ExtTreeMap.mem_iff_isSome_getElem?]
  split
  · rw [Option.isSome_map]
  · rfl

theorem size_relax {node : NodeId} {frontier : Frontier} :
    (g.relax node frontier).size = frontier.size := by
  have hkeys : (Std.ExtTreeSet.ofList (g.relax node frontier).keys : NodeSet)
      = .ofList frontier.keys := by
    refine Std.ExtTreeSet.ext_mem fun x => ?_
    rw [mem_ofList, mem_ofList, Std.ExtTreeMap.mem_keys, Std.ExtTreeMap.mem_keys, mem_relax]
  rw [← Std.ExtTreeMap.length_keys, ← Std.ExtTreeMap.length_keys,
    ← Std.ExtTreeSet.size_ofList Std.ExtTreeMap.distinct_keys, hkeys,
    Std.ExtTreeSet.size_ofList Std.ExtTreeMap.distinct_keys]

/-! ## Between two steps -/

/-- The frontier is the rest of the graph, and what a node of it knows is an edge to the tree. -/
structure Frontier.Encloses (g : Graph) (t : SpanningTree) (frontier : Frontier) : Prop where
  mem_iff : ∀ x, x ∈ frontier ↔ x ∈ g.nodes ∧ x ∉ t.nodes
  subset : ∀ x ∈ t.nodes, x ∈ g.nodes
  edge : ∀ (x : NodeId) (known : Nearness), frontier[x]? = some known → known.weight ≠ maxWeight →
    ∃ p ∈ t.nodes, known.parent = some p ∧ g.undirectedWeight? p x = some known.weight

/-- Every node of the frontier knows a lightest edge to the tree, if there is one. -/
structure Frontier.Surrounds (g : Graph) (t : SpanningTree) (frontier : Frontier) : Prop
    extends frontier.Encloses g t where
  lightest : ∀ (x : NodeId) (known : Nearness), frontier[x]? = some known → ∀ y ∈ t.nodes, ∀ w,
    g.undirectedWeight? y x = some w → known.weight ≤ w

/-- Without a rest, the tree has all the nodes. -/
theorem Frontier.Encloses.mem_nodes_of_empty {t : SpanningTree} {frontier : Frontier}
    (h : frontier.Encloses g t) (hempty : ∀ x, x ∉ frontier) (x : NodeId) :
    x ∈ t.nodes ↔ x ∈ g.nodes := by
  refine ⟨h.subset x, fun hx => ?_⟩
  by_contra hout
  exact hempty x ((h.mem_iff x).2 ⟨hx, hout⟩)

/-- Tree and frontier share the nodes of the graph out among them. -/
theorem Frontier.Encloses.size_add {t : SpanningTree} {frontier : Frontier}
    (h : frontier.Encloses g t) : t.nodes.size + frontier.size = g.nodeCount := by
  have hperm : (t.nodes.toList ++ frontier.keys).Perm g.nodes.toList := by
    refine (List.perm_ext_iff_of_nodup ?_ (nodup_toList _)).2 fun x => ?_
    · refine (nodup_toList _).append Std.ExtTreeMap.nodup_keys fun x hx hxf => ?_
      exact ((h.mem_iff x).1 (Std.ExtTreeMap.mem_keys.1 hxf)).2 (Std.ExtTreeSet.mem_toList.1 hx)
    · rw [List.mem_append, Std.ExtTreeSet.mem_toList, Std.ExtTreeMap.mem_keys, h.mem_iff,
        Std.ExtTreeSet.mem_toList]
      by_cases hx : x ∈ t.nodes
      · simp [hx, h.subset x hx]
      · simp [hx]
  have hlength := hperm.length_eq
  rwa [List.length_append, Std.ExtTreeSet.length_toList, Std.ExtTreeMap.length_keys,
    Std.ExtTreeSet.length_toList] at hlength

theorem Frontier.Encloses.size_lt {t : SpanningTree} {frontier : Frontier} {root : NodeId}
    (h : frontier.Encloses g t) (hroot : root ∈ t.nodes) : frontier.size < g.nodeCount := by
  have hpos : 0 < t.nodes.size := by
    rw [← Std.ExtTreeSet.length_toList]
    exact List.length_pos_of_mem (Std.ExtTreeSet.mem_toList.2 hroot)
  have hsum := h.size_add
  omega

theorem getElem?_of_erase {node x : NodeId} {frontier : Frontier} {old : Nearness}
    (h : (frontier.erase node)[x]? = some old) : frontier[x]? = some old := by
  rw [Std.ExtTreeMap.getElem?_erase] at h
  split at h
  · nomatch h
  · exact h

/-- A node joins the tree, and the others account for their edges to it. -/
theorem Frontier.Encloses.relax {t t' : SpanningTree} {frontier : Frontier} {node : NodeId}
    (h : frontier.Encloses g t) (hnode : node ∈ g.nodes)
    (hnodes : ∀ x, x ∈ t'.nodes ↔ x = node ∨ x ∈ t.nodes) :
    (g.relax node (frontier.erase node)).Encloses g t' := by
  refine ⟨?_, ?_, ?_⟩
  · intro x
    rw [mem_relax, Std.ExtTreeMap.mem_erase, h.mem_iff, hnodes, not_or, ne_eq,
      Std.compare_eq_iff_eq, eq_comm]
    tauto
  · intro x hx
    rcases (hnodes x).1 hx with rfl | hx
    · exact hnode
    · exact h.subset x hx
  · intro x known hknown hreached
    obtain ⟨old, hold, rfl | ⟨weight, hweight, -, rfl⟩⟩ := exists_of_getElem?_relax hknown
    · obtain ⟨p, hp, hparent, hweight⟩ := h.edge x known (getElem?_of_erase hold) hreached
      exact ⟨p, (hnodes p).2 (.inr hp), hparent, hweight⟩
    · exact ⟨node, (hnodes node).2 (.inl rfl), rfl, hweight⟩

/-- In a coherent graph no edge to the node that joins is missed. -/
theorem Frontier.Surrounds.relax (hg : g.Coherent) {t t' : SpanningTree} {frontier : Frontier}
    {node : NodeId} (h : frontier.Surrounds g t) (hnode : node ∈ g.nodes)
    (hnodes : ∀ x, x ∈ t'.nodes ↔ x = node ∨ x ∈ t.nodes) :
    (g.relax node (frontier.erase node)).Surrounds g t' := by
  refine ⟨h.toEncloses.relax hnode hnodes, ?_⟩
  intro x known hknown y hy w hw
  rw [hg.getElem?_relax, Option.map_eq_some_iff] at hknown
  obtain ⟨old, hold, rfl⟩ := hknown
  obtain ⟨hle, hover⟩ := g.nearerOver_le node x old
  rcases (hnodes y).1 hy with rfl | hy
  · exact hover w hw
  · exact Nat.le_trans hle (h.lightest x old (getElem?_of_erase hold) y hy w hw)

/-! ## The first step -/

theorem getElem?_startingFrontier {root x : NodeId} :
    (g.startingFrontier root)[x]? =
      if x = root then some ⟨0, none⟩
      else if x ∈ g.nodes then some ⟨maxWeight, none⟩
      else none := by
  have hfold : ∀ (list : List NodeId) (frontier : Frontier),
      (list.foldl (fun frontier node => frontier.insert node ⟨maxWeight, none⟩) frontier)[x]? =
        if x ∈ list then some ⟨maxWeight, none⟩ else frontier[x]? := by
    intro list
    induction list with
    | nil => intro frontier; rfl
    | cons first rest ih =>
      intro frontier
      rw [List.foldl_cons, ih, Std.ExtTreeMap.getElem?_insert]
      by_cases hx : x ∈ rest
      · simp [hx]
      · by_cases hfirst : first = x
        · simp [hfirst]
        · simp [hx, hfirst, Ne.symm hfirst]
  unfold startingFrontier
  rw [Std.ExtTreeMap.getElem?_insert, Std.ExtTreeSet.foldl_eq_foldl_toList, hfold]
  by_cases hx : root = x
  · simp [hx]
  · simp only [Std.compare_eq_iff_eq, hx, Ne.symm hx, if_false, Std.ExtTreeSet.mem_toList,
      Std.ExtTreeMap.getElem?_empty]

theorem nearest?_startingFrontier {root : NodeId} :
    nearest? (g.startingFrontier root) = some (root, ⟨0, none⟩) := by
  have hroot : (g.startingFrontier root)[root]? = some ⟨0, none⟩ := by
    rw [getElem?_startingFrontier, if_pos rfl]
  have hmem : root ∈ g.startingFrontier root :=
    mem_iff_exists_getElem?.2 ⟨_, hroot⟩
  obtain ⟨node, known, hnearest⟩ := exists_nearest? hmem
  have hzero := nearest?_le hnearest hroot
  have hentry := nearest?_eq_some hnearest
  rw [getElem?_startingFrontier] at hentry
  split at hentry
  · rename_i heq
    cases hentry
    rw [hnearest, heq]
  · split at hentry
    · cases hentry
      exact absurd hzero (by decide)
    · nomatch hentry

/-- The root joins first. The others know nothing yet but their edges to it. -/
theorem encloses_relax_startingFrontier {root : NodeId} (hroot : root ∈ g.nodes) :
    (g.relax root ((g.startingFrontier root).erase root)).Encloses g (.singleton root) := by
  have hunknown : ∀ x : NodeId, ((g.startingFrontier root).erase root)[x]? =
      if x ∈ g.nodes ∧ x ≠ root then some ⟨maxWeight, none⟩ else none := by
    intro x
    rw [Std.ExtTreeMap.getElem?_erase, getElem?_startingFrontier]
    by_cases hx : root = x
    · simp [hx]
    · simp [hx, Ne.symm hx]
  have hold : ∀ (x : NodeId) (old : Nearness),
      ((g.startingFrontier root).erase root)[x]? = some old → old = ⟨maxWeight, none⟩ := by
    intro x old hold
    rw [hunknown] at hold
    split at hold
    · exact (Option.some.inj hold).symm
    · nomatch hold
  refine ⟨?_, ?_, ?_⟩
  · intro x
    rw [mem_relax, Std.ExtTreeMap.mem_iff_isSome_getElem?, hunknown,
      SpanningTree.mem_nodes_singleton]
    split
    · exact iff_of_true rfl ‹_›
    · exact iff_of_false nofun ‹_›
  · intro x hx
    rw [SpanningTree.mem_nodes_singleton.1 hx]
    exact hroot
  · intro x known h hreached
    obtain ⟨old, hentry, rfl | ⟨weight, hweight, -, rfl⟩⟩ := exists_of_getElem?_relax h
    · rw [hold x known hentry] at hreached
      exact absurd rfl hreached
    · exact ⟨root, SpanningTree.mem_nodes_singleton.2 rfl, rfl, hweight⟩

theorem surrounds_relax_startingFrontier (hg : g.Coherent) {root : NodeId} (hroot : root ∈ g.nodes) :
    (g.relax root ((g.startingFrontier root).erase root)).Surrounds g (.singleton root) := by
  refine ⟨encloses_relax_startingFrontier hroot, ?_⟩
  intro x known h y hy w hw
  rw [hg.getElem?_relax, Option.map_eq_some_iff] at h
  obtain ⟨old, -, rfl⟩ := h
  rw [SpanningTree.mem_nodes_singleton.1 hy] at hw
  exact (g.nearerOver_le root x old).2 w hw

/-! ## The search -/

/-- The tree once a node that is known to be near has joined it. -/
def joined (t : SpanningTree) (node : NodeId) (known : Nearness) : SpanningTree :=
  match known.parent with
  | some parent => t.attach node parent known.weight
  | none => t

/-- The search by induction: `inv` holds between its steps, and it ends when nothing is left or
nothing that is left can be reached. -/
theorem growTree_induction (inv : SpanningTree → Frontier → Prop)
    (ends : Except SpanningError SpanningTree → Prop)
    (step : ∀ t frontier node known, inv t frontier → nearest? frontier = some (node, known) →
      known.weight ≠ maxWeight →
        inv (joined t node known) (g.relax node (frontier.erase node)))
    (stuck : ∀ t frontier node known, inv t frontier → nearest? frontier = some (node, known) →
      known.weight = maxWeight →
        ends (.error (.disconnected (g.nodeCount - frontier.size) g.nodeCount)))
    (done : ∀ t frontier, inv t frontier → (∀ x, x ∉ frontier) → ends (.ok t))
    (fuel : Nat) {t : SpanningTree} {frontier : Frontier} (h : inv t frontier)
    (hfuel : frontier.size ≤ fuel) : ends (g.growTree fuel t frontier) := by
  induction fuel generalizing t frontier with
  | zero =>
    refine done t frontier h fun x hx => ?_
    have hpos := size_pos_of_mem hx
    omega
  | succ fuel ih =>
    unfold growTree
    split
    · rename_i hnone
      refine done t frontier h fun x hx => ?_
      obtain ⟨node, known, hnearest⟩ := exists_nearest? hx
      rw [hnone] at hnearest
      nomatch hnearest
    · rename_i node known hnearest
      have hmem : node ∈ frontier := mem_iff_exists_getElem?.2 ⟨known, nearest?_eq_some hnearest⟩
      split
      · exact stuck t frontier node known h hnearest ‹_›
      · have hsize : (g.relax node (frontier.erase node)).size ≤ fuel := by
          rw [size_relax, Std.ExtTreeMap.size_erase,
            if_pos (Std.ExtTreeMap.contains_iff_mem.2 hmem)]
          omega
        exact ih (step t frontier node known h hnearest ‹_›) hsize

/-- The root joins first; this is how the search goes on from there. -/
theorem minimumSpanningTree_eq {root : NodeId} (hroot : root ∈ g.nodes) :
    g.minimumSpanningTree root = g.growTree (g.nodeCount - 1) (.singleton root)
      (g.relax root ((g.startingFrontier root).erase root)) := by
  have hcontains : g.contains root = true := Std.ExtTreeSet.contains_iff_mem.2 hroot
  have hsize := (encloses_relax_startingFrontier hroot).size_lt
    (SpanningTree.mem_nodes_singleton.2 rfl)
  obtain ⟨fuel, hfuel⟩ := Nat.exists_eq_add_one_of_ne_zero (Nat.ne_zero_of_lt hsize)
  unfold minimumSpanningTree
  rw [if_pos hcontains, hfuel, growTree, nearest?_startingFrontier]
  dsimp only
  rw [if_neg (by decide), Nat.add_sub_cancel]

/-- The nearest node is next to the tree, unless nothing of the rest is. -/
theorem Frontier.Encloses.exists_parent {t : SpanningTree} {frontier : Frontier} {node : NodeId}
    {known : Nearness} (h : frontier.Encloses g t)
    (hnearest : nearest? frontier = some (node, known))
    (hreached : known.weight ≠ maxWeight) :
    node ∈ g.nodes ∧ node ∉ t.nodes ∧ ∃ p ∈ t.nodes, g.undirectedWeight? p node = some known.weight
      ∧ joined t node known = t.attach node p known.weight := by
  have hentry := nearest?_eq_some hnearest
  obtain ⟨hnode, hout⟩ := (h.mem_iff node).1 (mem_iff_exists_getElem?.2 ⟨known, hentry⟩)
  obtain ⟨p, hp, hparent, hweight⟩ := h.edge node known hentry hreached
  refine ⟨hnode, hout, p, hp, hweight, ?_⟩
  unfold joined
  rw [hparent]

/-- From a part of a connected graph that is not all of it, an edge leads out. -/
theorem exists_crossing (h : g.Coherent) {root : NodeId} {part : NodeSet} (hroot : root ∈ part)
    {x : NodeId} (hout : x ∉ part)
    (hpath : Relation.ReflTransGen (fun a b => g.HasEdge a b ∨ g.HasEdge b a) root x) :
    ∃ a ∈ part, ∃ b ∈ g.nodes, b ∉ part ∧ (g.HasEdge a b ∨ g.HasEdge b a) := by
  induction hpath with
  | refl => exact absurd hroot hout
  | @tail a b _ he ih =>
    by_cases ha : a ∈ part
    · refine ⟨a, ha, b, ?_, hout, he⟩
      rcases he with he | he
      · exact h.target_mem _ _ he
      · exact h.source_mem _ _ he
    · exact ih ha

/-- No edge that leads out of the tree is lighter than what is known of the nearest node. -/
theorem Frontier.Surrounds.nearest_le {t : SpanningTree} {frontier : Frontier} {node : NodeId}
    {known : Nearness} (h : frontier.Surrounds g t)
    (hnearest : nearest? frontier = some (node, known))
    {a b : NodeId} {w : Weight} (ha : a ∈ t.nodes) (hb : b ∈ g.nodes) (hout : b ∉ t.nodes)
    (hw : g.undirectedWeight? a b = some w) : known.weight ≤ w := by
  obtain ⟨other, hother⟩ := mem_iff_exists_getElem?.1 ((h.mem_iff b).2 ⟨hb, hout⟩)
  exact Nat.le_trans (nearest?_le hnearest hother) (h.lightest b other hother a ha w hw)

/-- If all edges weigh less than the largest weight, the search gets stuck only where no edge leads
out of the tree. -/
theorem Frontier.Surrounds.closed_of_stuck {t : SpanningTree} {frontier : Frontier}
    {node : NodeId} {known : Nearness} (h : frontier.Surrounds g t)
    (hlight : ∀ u v w, g.weight? u v = some w → w < maxWeight)
    (hnearest : nearest? frontier = some (node, known)) (hstuck : known.weight = maxWeight)
    {a b : NodeId} (ha : a ∈ t.nodes) (hb : b ∈ g.nodes)
    (hedge : g.HasEdge a b ∨ g.HasEdge b a) : b ∈ t.nodes := by
  by_contra hout
  obtain ⟨w, hw, hweight⟩ := undirectedWeight?_of_hasEdge hedge
  have hless : w < maxWeight := hweight.elim (hlight _ _ w) (hlight _ _ w)
  have hle := h.nearest_le hnearest ha hb hout hw
  rw [hstuck] at hle
  exact absurd hless (Nat.not_lt_of_le hle)

/-- In a connected graph the search for a minimum spanning tree succeeds. -/
theorem minimumSpanningTree_of_connected (h : g.Coherent) {root : NodeId}
    (hconnected : ∀ x ∈ g.nodes,
      Relation.ReflTransGen (fun a b => g.HasEdge a b ∨ g.HasEdge b a) root x)
    (hlight : ∀ u v w, g.weight? u v = some w → w < maxWeight) (hroot : root ∈ g.nodes) :
    ∃ t, g.minimumSpanningTree root = .ok t ∧ t.root = root ∧ ∀ x, x ∈ t.nodes ↔ x ∈ g.nodes := by
  have hfirst := surrounds_relax_startingFrontier h hroot
  have hsize := hfirst.size_lt (SpanningTree.mem_nodes_singleton.2 rfl)
  rw [minimumSpanningTree_eq hroot]
  refine growTree_induction
    (fun t frontier => frontier.Surrounds g t ∧ t.root = root ∧ root ∈ t.nodes)
    (fun result => ∃ t, result = .ok t ∧ t.root = root ∧ ∀ x, x ∈ t.nodes ↔ x ∈ g.nodes)
    ?_ ?_ ?_ _ ⟨hfirst, rfl, SpanningTree.mem_nodes_singleton.2 rfl⟩ (by omega)
  · rintro t frontier node known ⟨hsurrounds, hrooted, hmem⟩ hnearest hreached
    obtain ⟨hnode, -, p, hp, -, hjoined⟩ := hsurrounds.exists_parent hnearest hreached
    have hnodes : ∀ x, x ∈ (t.attach node p known.weight).nodes ↔ x = node ∨ x ∈ t.nodes :=
      fun x => SpanningTree.mem_nodes_attach known.weight hp
    rw [hjoined]
    exact ⟨hsurrounds.relax h hnode hnodes, hrooted, (hnodes root).2 (.inr hmem)⟩
  · rintro t frontier node known ⟨hsurrounds, -, hmem⟩ hnearest hstuck
    obtain ⟨hnode, hout⟩ := (hsurrounds.mem_iff node).1
      (mem_iff_exists_getElem?.2 ⟨known, nearest?_eq_some hnearest⟩)
    -- an edge leads to the rest, so the nearest node has one
    obtain ⟨a, ha, b, hb, hbout, hedge⟩ := exists_crossing h hmem hout (hconnected node hnode)
    exact absurd (hsurrounds.closed_of_stuck hlight hnearest hstuck ha hb hedge) hbout
  · rintro t frontier ⟨hsurrounds, hrooted, -⟩ hempty
    exact ⟨t, rfl, hrooted, hsurrounds.mem_nodes_of_empty hempty⟩

end Graph

end Meshcast
