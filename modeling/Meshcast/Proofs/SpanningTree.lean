import Meshcast.Proofs.NodeSets
import Meshcast.SpanningTree

/-!
# Meshcast — how spanning trees grow

A spanning tree grows by hanging new nodes under nodes that are there. So every node but the root has
one parent, and its neighbors are its parent and the nodes that it is the parent of. The two indexes
of a tree are written apart from each other, and this is where they are found to agree.

* **`SpanningTree.Grown`** — the trees that grew.
* **`mem_nodes_attach`**, **`parent?_attach`**, **`mem_neighbors_attach`** — one attachment.
* **`Grown.exists_parent`**, **`Grown.mem_neighbors_iff`** — parents, and neighbors in terms of them.
* **`Grown.length_edges`** — one edge less than nodes.
-/

namespace Meshcast

namespace SpanningTree

/-- The trees that grow from a root by hanging new nodes under nodes that are there. -/
inductive Grown : SpanningTree → Prop
  | singleton (root : NodeId) : Grown (.singleton root)
  | attach {t : SpanningTree} {child parent : NodeId} (weight : Weight) (grown : Grown t)
      (new : child ∉ t.nodes) (there : parent ∈ t.nodes) : Grown (t.attach child parent weight)

/-! ## Nodes and edges -/

section Views

variable (t : SpanningTree)

theorem mem_nodes {node : NodeId} : node ∈ t.nodes ↔ node ∈ t.adjacency := by
  unfold nodes
  rw [mem_ofList, Std.ExtTreeMap.mem_keys]

theorem contains_iff {node : NodeId} : t.contains node = true ↔ node ∈ t.nodes := by
  rw [mem_nodes]
  exact Std.ExtTreeMap.contains_iff_mem

theorem size_nodes : t.nodes.size = t.size := by
  unfold nodes size
  rw [Std.ExtTreeSet.size_ofList Std.ExtTreeMap.distinct_keys, Std.ExtTreeMap.length_keys]

theorem mem_edges {a : Attachment} :
    a ∈ t.edges ↔ t.parents[a.child]? = some (a.parent, a.weight) := by
  unfold edges
  rw [List.mem_map]
  constructor
  · rintro ⟨entry, hentry, rfl⟩
    exact Std.ExtTreeMap.mem_toList_iff_getElem?_eq_some.1 hentry
  · intro hparent
    exact ⟨_, Std.ExtTreeMap.mem_toList_iff_getElem?_eq_some.2 hparent, rfl⟩

/-- A parent is recorded with its child, and only once. -/
theorem parent?_eq_some_iff {child parent : NodeId} :
    t.parent? child = some parent ↔ ∃ a ∈ t.edges, a.child = child ∧ a.parent = parent := by
  unfold parent?
  rw [Option.map_eq_some_iff]
  constructor
  · rintro ⟨⟨parent, weight⟩, hentry, rfl⟩
    exact ⟨⟨child, parent, weight⟩, (mem_edges t).2 hentry, rfl, rfl⟩
  · rintro ⟨a, ha, rfl, rfl⟩
    exact ⟨_, (mem_edges t).1 ha, rfl⟩

theorem totalWeight_eq : t.totalWeight = (t.edges.map Attachment.weight).sum := by
  unfold totalWeight edges
  rw [Std.ExtTreeMap.foldl_eq_foldl_toList, List.sum_eq_foldl, List.foldl_map, List.foldl_map]

end Views

/-! ## A single node -/

theorem mem_nodes_singleton {root node : NodeId} : node ∈ (singleton root).nodes ↔ node = root := by
  rw [mem_nodes]
  unfold singleton
  rw [Std.ExtTreeMap.mem_insert, Std.compare_eq_iff_eq, or_iff_left Std.ExtTreeMap.not_mem_empty,
    eq_comm]

theorem neighbors_singleton (root node : NodeId) : (singleton root).neighbors node = ∅ := by
  unfold neighbors singleton
  rw [Std.ExtTreeMap.getElem?_insert]
  split <;> simp

theorem parent?_singleton (root node : NodeId) : (singleton root).parent? node = none := by
  unfold parent? singleton
  simp

/-! ## One attachment -/

section Attach

variable {t : SpanningTree} {child parent : NodeId} (weight : Weight)

theorem mem_nodes_attach (there : parent ∈ t.nodes) {node : NodeId} :
    node ∈ (t.attach child parent weight).nodes ↔ node = child ∨ node ∈ t.nodes := by
  have hrows : node ∈ (t.attach child parent weight).nodes ↔
      child = node ∨ parent = node ∨ node ∈ t.nodes := by
    rw [mem_nodes, mem_nodes]
    unfold attach
    simp
  rw [hrows, eq_comm]
  refine or_congr_right (or_iff_right_of_imp ?_)
  rintro rfl
  exact there

theorem nodes_attach (there : parent ∈ t.nodes) :
    (t.attach child parent weight).nodes = t.nodes.insert child := by
  refine Std.ExtTreeSet.ext_mem fun x => ?_
  rw [mem_nodes_attach weight there, mem_insert]

theorem parent?_attach (node : NodeId) :
    (t.attach child parent weight).parent? node =
      if child = node then some parent else t.parent? node := by
  unfold parent? attach
  rw [Std.ExtTreeMap.getElem?_insert]
  simp only [Std.compare_eq_iff_eq]
  split <;> rfl

/-- To put a node into the row of another one leaves everything else as it is. -/
theorem mem_row_insert (rows : Std.ExtTreeMap NodeId NodeSet) (a b : NodeId) {x y : NodeId} :
    let row (rows : Std.ExtTreeMap NodeId NodeSet) (x : NodeId) : NodeSet := rows[x]?.getD ∅
    y ∈ row (rows.insert a ((row rows a).insert b)) x ↔ x = a ∧ y = b ∨ y ∈ row rows x := by
  intro row
  show y ∈ (rows.insert a ((row rows a).insert b))[x]?.getD ∅ ↔ _
  rw [Std.ExtTreeMap.getElem?_insert]
  split
  · obtain rfl := Std.LawfulEqOrd.eq_of_compare ‹_›
    rw [Option.getD_some, mem_insert, and_iff_right rfl]
  · rename_i hne
    have hne' : x ≠ a := fun heq => hne (Std.compare_eq_iff_eq.2 heq.symm)
    exact (or_iff_right fun h => hne' h.1).symm

theorem mem_neighbors_attach {x y : NodeId} :
    y ∈ (t.attach child parent weight).neighbors x ↔
      x = child ∧ y = parent ∨ x = parent ∧ y = child ∨ y ∈ t.neighbors x := by
  have hparent := mem_row_insert t.adjacency parent child (x := x) (y := y)
  have hchild := mem_row_insert (t.adjacency.insert parent ((t.neighbors parent).insert child))
    child parent (x := x) (y := y)
  exact hchild.trans (or_congr_right hparent)

end Attach

/-! ## Parents -/

namespace Grown

variable {t : SpanningTree}

theorem root_mem (h : Grown t) : t.root ∈ t.nodes := by
  induction h with
  | singleton root => exact mem_nodes_singleton.2 rfl
  | attach weight grown new there ih => exact (mem_nodes_attach weight there).2 (.inr ih)

theorem mem_of_parent? (h : Grown t) {x p : NodeId} (hp : t.parent? x = some p) :
    x ∈ t.nodes ∧ p ∈ t.nodes := by
  induction h with
  | singleton root =>
    rw [parent?_singleton] at hp
    nomatch hp
  | attach weight grown new there ih =>
    rw [parent?_attach] at hp
    rw [mem_nodes_attach weight there, mem_nodes_attach weight there]
    split at hp
    · rename_i heq
      cases hp
      exact ⟨.inl heq.symm, .inr there⟩
    · exact ⟨.inr (ih hp).1, .inr (ih hp).2⟩

theorem exists_parent (h : Grown t) {x : NodeId} (hx : x ∈ t.nodes) (hroot : x ≠ t.root) :
    ∃ p, t.parent? x = some p := by
  induction h with
  | singleton root => exact absurd (mem_nodes_singleton.1 hx) hroot
  | @attach t child parent weight grown new there ih =>
    rw [parent?_attach]
    split
    · exact ⟨parent, rfl⟩
    · rename_i hne
      rw [mem_nodes_attach weight there] at hx
      exact ih (hx.resolve_left (Ne.symm hne)) hroot

/-- **The two indexes agree.** Neighbors are parent and child, the one way or the other. -/
theorem mem_neighbors_iff (h : Grown t) {x y : NodeId} :
    y ∈ t.neighbors x ↔ t.parent? y = some x ∨ t.parent? x = some y := by
  induction h with
  | singleton root =>
    rw [neighbors_singleton, parent?_singleton, parent?_singleton]
    exact iff_of_false Std.ExtTreeSet.not_mem_empty (by simp)
  | @attach t child parent weight grown new there ih =>
    have hne : parent ≠ child := by
      rintro rfl
      exact new there
    have hchild : t.parent? child = none := by
      cases hp : t.parent? child with
      | none => rfl
      | some p => exact absurd (grown.mem_of_parent? hp).1 new
    have hchild' : ∀ z, t.parent? z ≠ some child := by
      intro z hz
      exact new (grown.mem_of_parent? hz).2
    rw [mem_neighbors_attach, ih, parent?_attach, parent?_attach]
    by_cases hx : child = x
    · subst hx
      by_cases hy : child = y
      · subst hy
        simp [hne, hchild, Ne.symm hne]
      · simp [hy, hchild, hchild', Ne.symm hne, eq_comm]
    · by_cases hy : child = y
      · subst hy
        simp [hx, Ne.symm hx, hchild, hchild', eq_comm]
      · simp [hx, hy, Ne.symm hx, Ne.symm hy]

theorem ne_of_parent? (h : Grown t) {x p : NodeId} (hp : t.parent? x = some p) : p ≠ x := by
  induction h with
  | singleton root =>
    rw [parent?_singleton] at hp
    nomatch hp
  | @attach t child parent weight grown new there ih =>
    rw [parent?_attach] at hp
    split at hp
    · rename_i heq
      subst heq
      obtain rfl : parent = p := Option.some.inj hp
      rintro rfl
      exact new there
    · exact ih hp

/-- A node that is new has no parent yet. -/
theorem not_mem_parents (h : Grown t) {x : NodeId} (hx : x ∉ t.nodes) : x ∉ t.parents := by
  intro hmem
  obtain ⟨⟨p, weight⟩, hentry⟩ := mem_iff_exists_getElem?.1 hmem
  exact hx (h.mem_of_parent? (p := p) (by rw [parent?, hentry]; rfl)).1

/-- A tree has one edge less than nodes. -/
theorem length_edges (h : Grown t) : t.edges.length + 1 = t.nodes.size := by
  unfold edges
  rw [List.length_map, Std.ExtTreeMap.length_toList]
  induction h with
  | singleton root => rw [size_nodes]; rfl
  | @attach t child parent weight grown new there ih =>
    rw [nodes_attach weight there, Std.ExtTreeSet.size_insert,
      if_neg (mt Std.ExtTreeSet.contains_iff_mem.1 new), ← ih]
    unfold SpanningTree.attach
    rw [Std.ExtTreeMap.size_insert,
      if_neg (mt Std.ExtTreeMap.contains_iff_mem.1 (grown.not_mem_parents new))]

/-- A tree without edges is its root. -/
theorem eq_root_of_size (h : Grown t) (hsize : t.size ≤ 1) {x : NodeId} (hx : x ∈ t.nodes) :
    x = t.root := by
  rw [← size_nodes, ← ncard_setOf_mem] at hsize
  have hfinite : {y | y ∈ t.nodes}.Finite :=
    t.nodes.toList.finite_toSet.subset fun y => Std.ExtTreeSet.mem_toList.2
  exact (Set.ncard_le_one hfinite).1 hsize x hx t.root h.root_mem

/-- The edges of a tree to which a new node is attached, in some order. -/
theorem edges_attach (h : Grown t) {child parent : NodeId} (weight : Weight)
    (new : child ∉ t.nodes) :
    (t.attach child parent weight).edges.Perm (⟨child, parent, weight⟩ :: t.edges) := by
  unfold edges SpanningTree.attach
  exact (toList_insert_perm (h.not_mem_parents new)).map _

end Grown

end SpanningTree

end Meshcast
