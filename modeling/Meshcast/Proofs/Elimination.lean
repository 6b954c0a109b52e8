import Mathlib.Algebra.Group.Nat.Defs
import Meshcast.Proofs.Contraction

/-!
# Meshcast — contraction in whatever order

Each node that is bypassed leaves edges behind that later ones build on, so the order might matter,
a chain of such edges might be off by some hops, and a sum of two weights might be cut off at the
largest one. None of this shows in the contracted graph. In a graph of up to 2³¹ + 1 nodes no sum is
cut off; in a larger one it may happen, as in a broom with a long handle, but such a sum is never the
weight of an edge.

* **`Built`** — the graphs that can be made; **`Built.coherent`** — their indexes agree.
* **`mem_rows_foldl_bypass`** — which rows the indexes have does not depend on the order;
  **`foldl_bypass_eq_contract`** — so no part of the graph does.
* **`isLeast_walk_contract`** — kept nodes are as far apart as before.
* **`CutsOff`** — a sum of two weights is cut off when a node is bypassed;
  **`StandsFor.not_cutsOff`** — not in a graph of up to 2³¹ + 1 nodes.
* **`StandsFor.exists_cheaper`** — where it happens, there is a cheaper edge already.
* **`cutsOff_broom`** — where it happens.
* **`contract_exact`** — the result.
-/

namespace Meshcast

namespace Graph

/-! ## Graphs that can be made -/

/-- The graphs that the operations on graphs make out of nothing. -/
inductive Built : Graph → Prop
  | empty : Built {}
  | addNode {g : Graph} (h : Built g) (node : NodeId) : Built (g.addNode node)
  | removeNode {g : Graph} (h : Built g) (node : NodeId) : Built (g.removeNode node)
  | addEdge {g : Graph} (h : Built g) (u v : NodeId) (weight : Weight) :
    Built (g.addEdge u v weight)
  | connect {g : Graph} (h : Built g) (u v : NodeId) (weight : Weight) :
    Built (g.connect u v weight)
  | addEdgeIfCheaper {g : Graph} (h : Built g) (u v : NodeId) (weight : Weight) :
    Built (g.addEdgeIfCheaper u v weight).2
  | removeEdge {g : Graph} (h : Built g) (u v : NodeId) : Built (g.removeEdge u v).2
  | withUnitWeights {g : Graph} (h : Built g) : Built g.withUnitWeights
  | restrictedTo {g : Graph} (h : Built g) (keep : NodeSet) : Built (g.restrictedTo keep)

theorem Built.coherent {g : Graph} (h : g.Built) : g.Coherent := by
  induction h with
  | empty => exact coherent_empty
  | addNode _ node ih => exact ih.addNode node
  | removeNode _ node ih => exact ih.removeNode node
  | addEdge _ u v weight ih => exact ih.addEdge u v weight
  | connect _ u v weight ih => exact ih.connect u v weight
  | addEdgeIfCheaper _ u v weight ih => exact ih.addEdgeIfCheaper u v weight
  | removeEdge _ u v ih => exact ih.removeEdge u v
  | withUnitWeights _ ih => exact ih.withUnitWeights
  | restrictedTo _ keep _ => exact coherent_restrictedTo _ keep

/-! ## The rows of the indexes

A row may be empty, and then no edge tells whether it is there. -/

/-- The indexes of two graphs have rows for the same nodes. -/
structure SameRows (g g' : Graph) : Prop where
  outgoing : ∀ x, x ∈ g'.outgoing ↔ x ∈ g.outgoing
  incoming : ∀ x, x ∈ g'.incoming ↔ x ∈ g.incoming

section Rows

variable {g : Graph}

theorem HasEdge.mem_outgoing {u v : NodeId} (h : g.HasEdge u v) : u ∈ g.outgoing := by
  obtain ⟨weight, hw⟩ := h
  by_contra hnone
  rw [weight?, targets, Std.ExtTreeMap.getElem?_eq_none hnone] at hw
  simp at hw

theorem Coherent.mem_incoming (h : g.Coherent) {u v : NodeId} (he : g.HasEdge u v) :
    v ∈ g.incoming := by
  have hu := (h.mem_predecessors u v).2 he
  by_contra hnone
  rw [predecessors, Std.ExtTreeMap.getElem?_eq_none hnone] at hu
  simp at hu

theorem sameRows_addEdgeIfCheaper {u v : NodeId} (weight : Weight) (hu : u ∈ g.outgoing)
    (hv : v ∈ g.incoming) : SameRows g (g.addEdgeIfCheaper u v weight).2 := by
  unfold addEdgeIfCheaper addEdge
  split
  · exact ⟨fun _ => Iff.rfl, fun _ => Iff.rfl⟩
  · dsimp only
    split
    · exact ⟨fun _ => Iff.rfl, fun _ => Iff.rfl⟩
    · refine ⟨fun x => ?_, fun x => ?_⟩
      · rw [Std.ExtTreeMap.mem_insert, Std.compare_eq_iff_eq]
        exact or_iff_right_of_imp fun heq => heq ▸ hu
      · rw [Std.ExtTreeMap.mem_insert, Std.compare_eq_iff_eq]
        exact or_iff_right_of_imp fun heq => heq ▸ hv

/-- Edges between nodes that have rows make no new ones. -/
theorem sameRows_foldl (edges : List Edge)
    (hends : ∀ e ∈ edges, e.source ∈ g.outgoing ∧ e.target ∈ g.incoming) :
    SameRows g (edges.foldl (fun g e => (g.addEdgeIfCheaper e.source e.target e.weight).2) g) := by
  induction edges generalizing g with
  | nil => exact ⟨fun _ => Iff.rfl, fun _ => Iff.rfl⟩
  | cons e rest ih =>
    obtain ⟨hsource, htarget⟩ := hends e List.mem_cons_self
    have hfirst := sameRows_addEdgeIfCheaper e.weight hsource htarget
    have hrest := ih fun e' he' => by
      rw [hfirst.outgoing, hfirst.incoming]
      exact hends e' (List.mem_cons_of_mem e he')
    exact ⟨fun x => (hrest.outgoing x).trans (hfirst.outgoing x),
      fun x => (hrest.incoming x).trans (hfirst.incoming x)⟩

theorem mem_rows_removeNode (h : g.Coherent) {node : NodeId} (hnode : node ∈ g.nodes)
    (x : NodeId) :
    (x ∈ (g.removeNode node).outgoing ↔ x ≠ node ∧ x ∈ g.outgoing)
      ∧ (x ∈ (g.removeNode node).incoming ↔ x ≠ node ∧ x ∈ g.incoming) := by
  rw [outgoing_removeNode h hnode, incoming_removeNode h hnode, Std.ExtTreeMap.mem_map,
    Std.ExtTreeMap.mem_erase, Std.ExtTreeMap.mem_map, Std.ExtTreeMap.mem_erase, ne_eq,
    Std.compare_eq_iff_eq, eq_comm (a := node)]
  exact ⟨Iff.rfl, Iff.rfl⟩

/-- Whoever is bypassed loses its rows. The edges that take its place lie between nodes that had
edges to or from it, and so had rows before. -/
theorem mem_rows_bypass (h : g.Coherent) {z : NodeId} (hz : z ∈ g.nodes) (x : NodeId) :
    (x ∈ (g.bypass z).outgoing ↔ x ≠ z ∧ x ∈ g.outgoing)
      ∧ (x ∈ (g.bypass z).incoming ↔ x ≠ z ∧ x ∈ g.incoming) := by
  have hends : ∀ e ∈ g.shortcuts z, g.HasEdge e.source z ∧ g.HasEdge z e.target := by
    intro e he
    obtain ⟨-, p, q, hp, hq, -⟩ := (mem_shortcuts h).1 he
    exact ⟨⟨p, hp⟩, ⟨q, hq⟩⟩
  have hrows := sameRows_foldl (g.shortcuts z) fun e he =>
    ⟨(hends e he).1.mem_outgoing, h.mem_incoming (hends e he).2⟩
  obtain ⟨hcoherent, hnodes⟩ := foldl_addEdgeIfCheaper (g.shortcuts z) h fun e he =>
    ⟨h.source_mem _ _ (hends e he).1, h.target_mem _ _ (hends e he).2⟩
  unfold bypass
  obtain ⟨houtgoing, hincoming⟩ := mem_rows_removeNode hcoherent ((hnodes z).2 hz) x
  rw [houtgoing, hincoming, hrows.outgoing, hrows.incoming]
  exact ⟨Iff.rfl, Iff.rfl⟩

theorem mem_rows_foldl_bypass (h : g.Coherent) {order : List NodeId} (hnodup : order.Nodup)
    (hnodes : ∀ z ∈ order, z ∈ g.nodes) (x : NodeId) :
    (x ∈ (order.foldl bypass g).outgoing ↔ x ∉ order ∧ x ∈ g.outgoing)
      ∧ (x ∈ (order.foldl bypass g).incoming ↔ x ∉ order ∧ x ∈ g.incoming) := by
  induction order generalizing g with
  | nil => simp
  | cons z rest ih =>
    rw [List.nodup_cons] at hnodup
    obtain ⟨hcoherent, hleft⟩ := coherent_bypass h (z := z)
    have hstay : ∀ y ∈ rest, y ∈ (g.bypass z).nodes := by
      intro y hy
      refine (hleft y).2 ⟨?_, hnodes y (List.mem_cons_of_mem z hy)⟩
      rintro rfl
      exact hnodup.1 hy
    obtain ⟨houtgoing, hincoming⟩ := ih hcoherent hnodup.2 hstay
    obtain ⟨hout, hin⟩ := mem_rows_bypass h (hnodes z List.mem_cons_self) x
    rw [List.foldl_cons, houtgoing, hincoming, hout, hin, List.mem_cons, not_or]
    exact ⟨and_left_comm.trans and_assoc.symm, and_left_comm.trans and_assoc.symm⟩

/-- A graph is known by its nodes, its weights and the rows of its indexes. -/
theorem eq_of_sameRows {g' : Graph} (h : g.Coherent) (h' : g'.Coherent)
    (hnodes : ∀ x, x ∈ g.nodes ↔ x ∈ g'.nodes) (hweight : ∀ u v, g.weight? u v = g'.weight? u v)
    (hrows : SameRows g g') : g = g' := by
  have houtgoing : g.outgoing = g'.outgoing :=
    eq_of_getD ∅ hrows.outgoing fun u => Std.ExtTreeMap.ext_getElem? (hweight u)
  have hincoming : g.incoming = g'.incoming := by
    refine eq_of_getD ∅ hrows.incoming fun v => Std.ExtTreeSet.ext_mem fun u => ?_
    refine (h.mem_predecessors u v).trans (Iff.trans ?_ (h'.mem_predecessors u v).symm)
    unfold HasEdge
    rw [hweight]
  cases g
  cases g'
  obtain rfl := Std.ExtTreeSet.ext_mem hnodes
  obtain rfl := houtgoing
  obtain rfl := hincoming
  rfl

end Rows

/-! ## The order does not matter -/

section Order

variable {g : Graph}

/-- The weights of a graph that stands for another one are determined by who is gone. -/
theorem StandsFor.weight?_eq {c c' : Graph} {gone : NodeId → Prop} (h : StandsFor c g gone)
    (h' : StandsFor c' g gone) (u v : NodeId) : c.weight? u v = c'.weight? u v := by
  have hnone {c : Graph} (h : StandsFor c g gone) (hends : u = v ∨ gone u ∨ gone v) :
      c.weight? u v = none := by
    by_contra hsome
    have hedge : c.HasEdge u v := Option.ne_none_iff_exists'.1 hsome
    rcases hends with rfl | hu | hv
    · exact h.coherent.irreflexive u hedge
    · exact ((h.mem_nodes u).1 (h.coherent.source_mem u v hedge)).2 hu
    · exact ((h.mem_nodes v).1 (h.coherent.target_mem u v hedge)).2 hv
  by_cases hends : u = v ∨ gone u ∨ gone v
  · rw [hnone h hends, hnone h' hends]
  · simp only [not_or] at hends
    refine Option.ext fun n => ?_
    rw [h.weight? u v hends.1 hends.2.1 hends.2.2, h'.weight? u v hends.1 hends.2.1 hends.2.2]

/-- The graph that stands for a graph once some of its nodes are bypassed. -/
theorem standsFor_foldl_bypass (h : g.Coherent) {order : List NodeId} (hnodup : order.Nodup) :
    StandsFor (order.foldl bypass g.withUnitWeights) g (· ∈ order) := by
  have hfold := (standsFor_withUnitWeights h).foldl_bypass order hnodup fun _ _ => not_false
  simpa only [or_false] using hfold

/-- Whatever the order in which those who are not kept are bypassed, the same graph is left, down to
the empty rows of its indexes. -/
theorem foldl_bypass_eq_contract (h : g.Coherent) {keep : NodeSet} {order : List NodeId}
    (hnodup : order.Nodup) (horder : ∀ x, x ∈ order ↔ x ∈ g.nodes ∧ x ∉ keep) :
    order.foldl bypass g.withUnitWeights = g.contract keep := by
  let ascending := g.nodes.toList.filter fun node => !keep.contains node
  have hascending : ascending.Nodup := (nodup_toList g.nodes).filter _
  have hmem : ∀ x, x ∈ ascending ↔ x ∈ order := by
    intro x
    rw [horder, List.mem_filter, Std.ExtTreeSet.mem_toList, Bool.not_eq_true', contains_eq_false]
  have hstands := standsFor_foldl_bypass h hnodup
  have hstands' : StandsFor (g.contract keep) g (· ∈ order) := by
    have hfold := standsFor_foldl_bypass h hascending
    simp only [hmem] at hfold
    exact hfold
  have hnodes : ∀ z ∈ order, z ∈ g.withUnitWeights.nodes := fun z hz => ((horder z).1 hz).1
  have hrows := mem_rows_foldl_bypass h.withUnitWeights hnodup hnodes
  have hrows' := mem_rows_foldl_bypass h.withUnitWeights hascending fun z hz =>
    hnodes z ((hmem z).1 hz)
  refine eq_of_sameRows hstands.coherent hstands'.coherent (fun x => ?_)
    (hstands.weight?_eq hstands') ⟨fun x => ?_, fun x => ?_⟩
  · rw [hstands.mem_nodes, hstands'.mem_nodes]
  · exact (hrows' x).1.trans (by rw [(hrows x).1, hmem])
  · exact (hrows' x).2.trans (by rw [(hrows x).2, hmem])

end Order

/-! ## Distances -/

/-- A walk along edges whose weights add up to a length. -/
inductive Walk (g : Graph) (source : NodeId) : ℕ → NodeId → Prop
  | here : Walk g source 0 source
  | step {u v : NodeId} {n weight : ℕ} (h : Walk g source n u) (hw : g.weight? u v = some weight) :
    Walk g source (n + weight) v

section Distances

variable {g : Graph} (h : g.Coherent) (hsize : g.nodeCount ≤ maxWeight) {keep : NodeSet}
  {u v : NodeId}

include h hsize

/-- A walk in the contracted graph stands for a path of as many hops. -/
theorem through_of_walk {n : ℕ} (hwalk : (g.contract keep).Walk u n v) :
    (u = v ∧ n = 0) ∨ g.Through (fun _ => True) u n v := by
  induction hwalk with
  | here => exact .inl ⟨rfl, rfl⟩
  | @step x v n weight _ hw ih =>
    have hcontract := coherent_contract h keep
    have hedge : (g.contract keep).HasEdge x v := ⟨weight, hw⟩
    have hne : x ≠ v := by
      rintro rfl
      exact hcontract.irreflexive x hedge
    have hx := ((mem_nodes_contract h keep).1 (hcontract.source_mem x v hedge)).2
    have hv := ((mem_nodes_contract h keep).1 (hcontract.target_mem x v hedge)).2
    have hlast : g.Through (fun _ => True) x weight v :=
      ((weight?_contract_of_lt h hsize hne hx hv).1 hw).1.mono fun _ _ _ _ => trivial
    rcases ih with ⟨rfl, rfl⟩ | hpath
    · rw [Nat.zero_add]
      exact .inr hlast
    · exact .inr (hpath.trans trivial hlast)

/-- A walk in the contracted graph goes on along a path over nodes that are not kept. -/
theorem exists_walk_of_through {x : NodeId} {n m : ℕ} (hx : x ∈ keep) (hv : v ∈ keep)
    (hwalk : (g.contract keep).Walk u n x) (hpath : g.Through (· ∉ keep) x m v) :
    ∃ k ≤ n + m, (g.contract keep).Walk u k v := by
  by_cases hne : x = v
  · exact ⟨n, Nat.le_add_right n m, hne ▸ hwalk⟩
  · obtain ⟨w, hw⟩ := exists_isLeast (s := {n | g.Through (· ∉ keep) x n v}) hpath
    have hwm : w ≤ m := hw.2 hpath
    exact ⟨n + w, by omega, .step hwalk ((weight?_contract_of_lt h hsize hne hx hv).2 hw)⟩

/-- Of a path between kept nodes there is a walk in the contracted graph that is no longer. -/
theorem exists_walk_contract (hu : u ∈ keep) (hv : v ∈ keep) {n : ℕ}
    (hpath : g.Through (fun _ => True) u n v) : ∃ k ≤ n, (g.contract keep).Walk u k v := by
  -- the path so far leads to a kept node, and from there over others to where it is now
  have hsofar : ∃ x ∈ keep, ∃ i j, i + j ≤ n ∧ (g.contract keep).Walk u i x
      ∧ g.Through (· ∉ keep) x j v := by
    clear hv
    induction hpath with
    | edge he => exact ⟨u, hu, 0, 1, by omega, .here, .edge he⟩
    | @step y v n _ _ he ih =>
      obtain ⟨x, hx, i, j, hij, hwalk, hrest⟩ := ih
      by_cases hy : y ∈ keep
      · obtain ⟨k, hk, hwalk'⟩ := exists_walk_of_through h hsize hx hy hwalk hrest
        exact ⟨y, hy, k, 1, by omega, hwalk', .edge he⟩
      · exact ⟨x, hx, i, j + 1, by omega, hwalk, .step hrest hy he⟩
  obtain ⟨x, hx, i, j, hij, hwalk, hrest⟩ := hsofar
  obtain ⟨k, hk, hwalk'⟩ := exists_walk_of_through h hsize hx hv hwalk hrest
  exact ⟨k, by omega, hwalk'⟩

/-- The shortest walk in the contracted graph is as long as the shortest path has hops. -/
theorem isLeast_walk_contract (hne : u ≠ v) (hu : u ∈ keep) (hv : v ∈ keep) {n : ℕ} :
    IsLeast {n | (g.contract keep).Walk u n v} n ↔
      IsLeast {n | g.Through (fun _ => True) u n v} n := by
  refine isLeast_iff_of_dominates (fun m hm => ?_) fun m hm => ?_
  · exact (through_of_walk h hsize hm).resolve_left fun hnil => hne hnil.1
  · obtain ⟨k, hk, hwalk⟩ := exists_walk_contract h hsize hu hv hm
    exact ⟨k, hwalk, hk⟩

end Distances

/-! ## Sums that are cut off -/

/-- One of the edges that are to take the place of `z` weighs less than the two edges it stands for:
the sum of their weights is cut off. -/
def CutsOff (c : Graph) (z : NodeId) : Prop :=
  ∃ e ∈ c.shortcuts z, ∃ p q : ℕ, c.weight? e.source z = some p ∧ c.weight? z e.target = some q
    ∧ e.weight < p + q

section Sums

variable {c g : Graph} {gone : NodeId → Prop} (hc : StandsFor c g gone) (h : g.Coherent)

omit hc h in
/-- What the edge weighs that is to take the place of two others. -/
theorem weight_of_mem_shortcuts (hc : c.Coherent) {z : NodeId} {e : Edge} (he : e ∈ c.shortcuts z)
    {p q : ℕ} (hp : c.weight? e.source z = some p) (hq : c.weight? z e.target = some q) :
    e.weight = min (p + q) maxWeight := by
  obtain ⟨-, p', q', hp', hq', hweight⟩ := (mem_shortcuts hc).1 he
  rw [hp, Option.some.injEq] at hp'
  rw [hq, Option.some.injEq] at hq'
  rw [hweight, hp', hq']

include hc

/-- An edge has two ends, and both are left. -/
theorem StandsFor.ends {u v : NodeId} {w : ℕ} (hw : c.weight? u v = some w) :
    u ≠ v ∧ ¬gone u ∧ ¬gone v ∧ u ∈ g.nodes ∧ v ∈ g.nodes := by
  have hedge : c.HasEdge u v := ⟨w, hw⟩
  obtain ⟨hu, hugone⟩ := (hc.mem_nodes u).1 (hc.coherent.source_mem u v hedge)
  obtain ⟨hv, hvgone⟩ := (hc.mem_nodes v).1 (hc.coherent.target_mem u v hedge)
  refine ⟨?_, hugone, hvgone, hu, hv⟩
  rintro rfl
  exact hc.coherent.irreflexive u hedge

include h

/-- A shortest path to the node does not visit the end of the edge from it, nor the other way round,
so the sum is less than twice the number of nodes by four. -/
theorem StandsFor.not_cutsOff (hsize : g.nodeCount ≤ 2 ^ 31 + 1) (z : NodeId) : ¬c.CutsOff z := by
  rintro ⟨⟨u, v, weight⟩, he, p, q, hp, hq, hover⟩
  have hne : u ≠ v := ((mem_shortcuts hc.coherent).1 he).1
  have hmax : g.nodeCount ≤ maxWeight := by
    unfold maxWeight
    omega
  obtain ⟨huz, hu, hz, hunode, -⟩ := hc.ends hp
  obtain ⟨hzv, -, hv, -, hvnode⟩ := hc.ends hq
  have hpleast := (hc.weight?_of_lt h hmax huz hu hz).1 hp
  have hqleast := (hc.weight?_of_lt h hmax hzv hz hv).1 hq
  -- `v` is no inner node of the path to `z`, nor is `u` one of the path from it
  have hplt := succ_lt_nodeCount_of_isLeast h huz hu hpleast hvnode hne.symm hzv.symm hv
  have hqlt := succ_lt_nodeCount_of_isLeast h hzv hz hqleast hunode huz hne hu
  have hfits : p + q ≤ maxWeight := by
    unfold maxWeight
    omega
  rw [weight_of_mem_shortcuts hc.coherent he hp hq, Nat.min_eq_left hfits] at hover
  exact Nat.lt_irrefl _ hover

/-- A sum may be too large although no shortest path is: the shortest paths to the node and from it
may both lead over all that are gone. But then a path that leaves the node out is shorter, and its
edge is there already. -/
theorem StandsFor.exists_cheaper (hsize : g.nodeCount ≤ maxWeight) {u z v : NodeId} (hne : u ≠ v)
    {p q : ℕ} (hp : c.weight? u z = some p) (hq : c.weight? z v = some q)
    (hover : ¬p + q ≤ maxWeight) : ∃ w, c.weight? u v = some w ∧ w < maxWeight := by
  obtain ⟨huz, hu, hz, -⟩ := hc.ends hp
  obtain ⟨hzv, -, hv, -⟩ := hc.ends hq
  have hpleast := (hc.weight?_of_lt h hsize huz hu hz).1 hp
  have hqleast := (hc.weight?_of_lt h hsize hzv hz hv).1 hq
  -- the shortest path that may pass the node has fewer hops than there are nodes
  have hpasses : g.Through (fun x => x = z ∨ gone x) u (p + q) v :=
    (hpleast.1.mono fun _ _ _ => .inr).trans (.inl rfl) (hqleast.1.mono fun _ _ _ => .inr)
  obtain ⟨m, hm⟩ := exists_isLeast (s := {n | g.Through (fun x => x = z ∨ gone x) u n v}) hpasses
  have hmlt := lt_nodeCount_of_isLeast h hne (not_or.2 ⟨huz, hu⟩) hm
  rcases hm.1.split with ⟨k, hk, hpath⟩ | ⟨a, b, hab, ha, hb⟩
  · obtain ⟨w, hw⟩ := exists_isLeast (s := {n | g.Through gone u n v}) hpath
    have hwk : w ≤ k := hw.2 hpath
    exact ⟨w, (hc.weight?_of_lt h hsize hne hu hv).2 hw,
      (hwk.trans hk).trans_lt (hmlt.trans_le hsize)⟩
  · have hpa := hpleast.2 ha
    have hqb := hqleast.2 hb
    omega

/-- So an edge whose weight was cut off is not added. -/
theorem StandsFor.weight_eq_or_cheaper (hsize : g.nodeCount ≤ maxWeight) {z : NodeId} {e : Edge}
    (he : e ∈ c.shortcuts z) {p q : ℕ} (hp : c.weight? e.source z = some p)
    (hq : c.weight? z e.target = some q) :
    e.weight = p + q ∨ ∃ w, c.weight? e.source e.target = some w ∧ w < e.weight := by
  rw [weight_of_mem_shortcuts hc.coherent he hp hq]
  by_cases hfits : p + q ≤ maxWeight
  · exact .inl (Nat.min_eq_left hfits)
  · rw [Nat.min_eq_right (Nat.le_of_not_le hfits)]
    exact .inr (hc.exists_cheaper h hsize ((mem_shortcuts hc.coherent).1 he).1 hp hq hfits)

end Sums

/-! ## Where a sum is cut off

A broom has two ends, 0 and 1, that are both linked to node 2, and a handle of further links from
there. Kept are the ends. When only the last node of the handle is left to be bypassed, the way to it
and the way from it both lead along the whole handle. -/

/-- A broom with `k` links in its handle. -/
def broom : ℕ → Graph
  | 0 => (({} : Graph).connect ⟨0⟩ ⟨2⟩ unitWeight).connect ⟨1⟩ ⟨2⟩ unitWeight
  | k + 1 => (broom k).connect ⟨k + 2⟩ ⟨k + 3⟩ unitWeight

section Broom

variable {k : ℕ}

theorem built_broom (k : ℕ) : (broom k).Built := by
  induction k with
  | zero => exact (Built.empty.connect _ _ _).connect _ _ _
  | succ k ih => exact ih.connect _ _ _

theorem mem_nodes_broom {x : NodeId} : x ∈ (broom k).nodes ↔ x.index ≤ k + 2 := by
  obtain ⟨i⟩ := x
  induction k with
  | zero =>
    unfold broom connect
    rw [mem_nodes_addEdge (by decide), mem_nodes_addEdge (by decide), mem_nodes_addEdge (by decide),
      mem_nodes_addEdge (by decide)]
    simp only [NodeId.mk.injEq, Std.ExtTreeSet.not_mem_empty, or_false]
    omega
  | succ k ih =>
    have hne : (⟨k + 2⟩ : NodeId) ≠ ⟨k + 3⟩ := by simp
    unfold broom connect
    rw [mem_nodes_addEdge hne.symm, mem_nodes_addEdge hne, ih]
    simp only [NodeId.mk.injEq]
    omega

theorem nodeCount_broom : (broom k).nodeCount = k + 3 := by
  have hperm : (broom k).nodes.toList.Perm ((List.range (k + 3)).map NodeId.mk) := by
    refine (List.perm_ext_iff_of_nodup (nodup_toList _) ?_).2 fun x => ?_
    · exact List.nodup_range.map fun i j h => by simpa using h
    · rw [Std.ExtTreeSet.mem_toList, mem_nodes_broom, List.mem_map]
      obtain ⟨i⟩ := x
      simp only [List.mem_range, NodeId.mk.injEq, exists_eq_right]
      omega
  have hlength := hperm.length_eq
  rwa [Std.ExtTreeSet.length_toList, List.length_map, List.length_range] at hlength

theorem hasEdge_broom {a b : NodeId} : (broom k).HasEdge a b ↔
    (a.index < 2 ∧ b.index = 2 ∨ b.index < 2 ∧ a.index = 2)
      ∨ (2 ≤ a.index ∧ b.index = a.index + 1 ∧ b.index ≤ k + 2
        ∨ 2 ≤ b.index ∧ a.index = b.index + 1 ∧ a.index ≤ k + 2) := by
  obtain ⟨i⟩ := a
  obtain ⟨j⟩ := b
  induction k with
  | zero =>
    have hnone : ¬({} : Graph).HasEdge ⟨i⟩ ⟨j⟩ := fun ⟨_, hw⟩ => nomatch hw
    unfold broom
    rw [hasEdge_connect, hasEdge_connect]
    simp only [ne_eq, NodeId.mk.injEq, hnone, or_false]
    omega
  | succ k ih =>
    unfold broom
    rw [hasEdge_connect, ih]
    simp only [ne_eq, NodeId.mk.injEq]
    omega

/-- The nodes of the handle but for the last one. -/
def OnHandle (k : ℕ) (x : NodeId) : Prop :=
  2 ≤ x.index ∧ x.index ≤ k + 1

/-- From either end a path leads along the handle, and one back. -/
theorem through_broom {i j : ℕ} (hi : i < 2) (hj : j ≤ k) :
    (broom k).Through (OnHandle k) ⟨i⟩ (j + 1) ⟨j + 2⟩
      ∧ (broom k).Through (OnHandle k) ⟨j + 2⟩ (j + 1) ⟨i⟩ := by
  induction j with
  | zero =>
    have hthere : (broom k).HasEdge ⟨i⟩ ⟨2⟩ := hasEdge_broom.2 (.inl (.inl ⟨hi, rfl⟩))
    have hback : (broom k).HasEdge ⟨2⟩ ⟨i⟩ := hasEdge_broom.2 (.inl (.inr ⟨hi, rfl⟩))
    exact ⟨.edge hthere, .edge hback⟩
  | succ j ih =>
    obtain ⟨hup, hdown⟩ := ih (by omega)
    have hinner : OnHandle k ⟨j + 2⟩ := ⟨by simp, by simpa using hj⟩
    have hthere : (broom k).HasEdge ⟨j + 2⟩ ⟨j + 3⟩ := by
      rw [hasEdge_broom]
      dsimp only
      omega
    have hback : (broom k).HasEdge ⟨j + 3⟩ ⟨j + 2⟩ := by
      rw [hasEdge_broom]
      dsimp only
      omega
    refine ⟨.step hup hinner hthere, ?_⟩
    have hpath := (Through.edge hback).trans hinner hdown
    rwa [Nat.add_comm 1] at hpath

/-- No edge changes how far from the ends a node is by more than one, so no path of fewer hops leads
as far. -/
theorem le_of_through_broom {inner : NodeId → Prop} {a b : NodeId} {n : ℕ}
    (h : (broom k).Through inner a n b) :
    b.index - 1 ≤ a.index - 1 + n ∧ a.index - 1 ≤ b.index - 1 + n := by
  induction h with
  | edge he =>
    have := hasEdge_broom.1 he
    omega
  | step _ _ he ih =>
    have := hasEdge_broom.1 he
    omega

/-- The handle is the shortest way from either end to its last node, and back. -/
theorem isLeast_through_broom {i : ℕ} (hi : i < 2) :
    IsLeast {n | (broom k).Through (OnHandle k) ⟨i⟩ n ⟨k + 2⟩} (k + 1)
      ∧ IsLeast {n | (broom k).Through (OnHandle k) ⟨k + 2⟩ n ⟨i⟩} (k + 1) := by
  obtain ⟨hup, hdown⟩ := through_broom hi (Nat.le_refl k)
  refine ⟨⟨hup, fun n hn => ?_⟩, hdown, fun n hn => ?_⟩
  · have := (le_of_through_broom hn).1
    dsimp only at this
    omega
  · have := (le_of_through_broom hn).2
    dsimp only at this
    omega

/-- Bypassed in ascending order, the last node of the handle comes last. -/
theorem order_broom :
    ∃ before, ((broom k).nodes.toList.filter fun node =>
        !(Std.ExtTreeSet.ofList [(⟨0⟩ : NodeId), ⟨1⟩] : NodeSet).contains node)
          = before ++ [⟨k + 2⟩]
      ∧ ∀ x, x ∈ before ↔ OnHandle k x := by
  generalize horder : ((broom k).nodes.toList.filter fun node =>
    !(Std.ExtTreeSet.ofList [(⟨0⟩ : NodeId), ⟨1⟩] : NodeSet).contains node) = order
  have hmem : ∀ x, x ∈ order ↔ 2 ≤ x.index ∧ x.index ≤ k + 2 := by
    rintro ⟨i⟩
    rw [← horder, List.mem_filter, Std.ExtTreeSet.mem_toList, mem_nodes_broom, Bool.not_eq_true',
      contains_eq_false, mem_ofList]
    simp only [List.mem_cons, NodeId.mk.injEq, List.not_mem_nil, or_false]
    omega
  have hascending : order.Pairwise fun a b => a.index < b.index := by
    rw [← horder]
    refine List.Pairwise.filter _ (Std.ExtTreeSet.ordered_toList.imp fun hlt => ?_)
    exact Nat.compare_eq_lt.1 hlt
  obtain ⟨before, after, rfl⟩ := List.append_of_mem ((hmem ⟨k + 2⟩).2 ⟨by simp, Nat.le_refl _⟩)
  obtain ⟨-, hlast, hfirst⟩ := List.pairwise_append.1 hascending
  have hnone : after = [] := by
    refine List.eq_nil_iff_forall_not_mem.2 fun x hx => ?_
    have hle := ((hmem x).1 (by simp [hx])).2
    have hlt := List.rel_of_pairwise_cons hlast hx
    exact absurd hle (by simpa using hlt)
  subst hnone
  refine ⟨before, rfl, fun x => ⟨fun hx => ?_, fun hx => ?_⟩⟩
  · have hlt := hfirst x hx ⟨k + 2⟩ List.mem_cons_self
    exact ⟨((hmem x).1 (List.mem_append_left _ hx)).1, Nat.le_of_lt_succ hlt⟩
  · have hthere := (hmem x).2 ⟨hx.1, hx.2.trans (Nat.le_succ _)⟩
    rcases List.mem_append.1 hthere with hbefore | hlast
    · exact hbefore
    · have hle := hx.2
      rw [List.mem_singleton.1 hlast] at hle
      exact absurd hle (by simp)

/-- **The bound is sharp.** Contracting a broom to its ends bypasses the last node of the handle
last, and then the two weights are one more than the handle has links. -/
theorem cutsOff_broom (hlong : 2 ^ 31 ≤ k + 1) (hsize : k + 3 < 2 ^ 32) :
    let keep : NodeSet := .ofList [(⟨0⟩ : NodeId), ⟨1⟩]
    ∃ before z, ((broom k).nodes.toList.filter fun node => !keep.contains node) = before ++ [z]
      ∧ (broom k).contract keep = (before.foldl bypass (broom k).withUnitWeights).bypass z
      ∧ (before.foldl bypass (broom k).withUnitWeights).CutsOff z := by
  intro keep
  obtain ⟨before, horder, hbefore⟩ := order_broom (k := k)
  refine ⟨before, ⟨k + 2⟩, horder, ?_, ?_⟩
  · unfold contract
    rw [horder, List.foldl_append]
    rfl
  have hcoherent := (built_broom k).coherent
  have hnodup : before.Nodup :=
    (List.nodup_append.1 (horder ▸ (nodup_toList (broom k).nodes).filter _)).1
  have hstands := standsFor_foldl_bypass hcoherent hnodup
  simp only [hbefore] at hstands
  have hmax : (broom k).nodeCount ≤ maxWeight := by
    rw [nodeCount_broom]
    exact Nat.le_of_lt_succ hsize
  have hend : ∀ i < 2, (⟨i⟩ : NodeId) ≠ ⟨k + 2⟩ ∧ ¬OnHandle k ⟨i⟩ := by
    intro i hi
    refine ⟨by simp; omega, fun h => ?_⟩
    have := h.1
    dsimp only at this
    omega
  have hlast : ¬OnHandle k ⟨k + 2⟩ := fun h => absurd h.2 (by simp)
  -- all of the handle but its last node is gone, so each of the two weights stands for the whole of it
  have hto : (before.foldl bypass (broom k).withUnitWeights).weight? ⟨0⟩ ⟨k + 2⟩
      = some (k + 1) := by
    obtain ⟨hne, hout⟩ := hend 0 (by decide)
    exact (hstands.weight?_of_lt hcoherent hmax hne hout hlast).2
      (isLeast_through_broom (by decide)).1
  have hfrom : (before.foldl bypass (broom k).withUnitWeights).weight? ⟨k + 2⟩ ⟨1⟩
      = some (k + 1) := by
    obtain ⟨hne, hout⟩ := hend 1 (by decide)
    exact (hstands.weight?_of_lt hcoherent hmax hne.symm hlast hout).2
      (isLeast_through_broom (by decide)).2
  refine ⟨⟨⟨0⟩, ⟨1⟩, _⟩, (mem_shortcuts hstands.coherent).2
    ⟨by simp, k + 1, k + 1, hto, hfrom, rfl⟩, k + 1, k + 1, hto, hfrom, ?_⟩
  show min (k + 1 + (k + 1)) maxWeight < k + 1 + (k + 1)
  unfold maxWeight
  omega

end Broom

/-- With 2³¹ + 2 nodes, one more than always fit, the handle is long enough. -/
theorem cutsOff_longest_broom :
    let g := broom (2 ^ 31 - 1)
    let keep : NodeSet := .ofList [(⟨0⟩ : NodeId), ⟨1⟩]
    g.Built ∧ g.nodeCount = 2 ^ 31 + 2
      ∧ ∃ before z, (g.nodes.toList.filter fun node => !keep.contains node) = before ++ [z]
        ∧ g.contract keep = (before.foldl bypass g.withUnitWeights).bypass z
        ∧ (before.foldl bypass g.withUnitWeights).CutsOff z := by
  exact ⟨built_broom _, nodeCount_broom, cutsOff_broom (by omega) (by omega)⟩

/-! ## The result -/

/-- **Contraction is exact, in whatever order nodes are removed.** Let a graph that operations made
have fewer than 2³² nodes. Contracted to some nodes, it has those of its nodes that are kept. From a
kept node to another one there is an edge exactly if there is a path all whose inner nodes are not
kept, and its weight is the number of hops of the shortest such path; so the distances along edges
of the contracted graph are the numbers of hops before. Those that are not kept may be bypassed in
any order, the same graph is left. In a graph of at most 2³¹ + 1 nodes no sum of two weights is cut
off on the way; in a larger one a sum may be, as in a long broom, but then a cheaper edge is there,
so that no weight that gets into the graph was cut off. -/
theorem contract_exact {g : Graph} (h : g.Built) (hsize : g.nodeCount < 2 ^ 32) (keep : NodeSet) :
    (∀ x, x ∈ (g.contract keep).nodes ↔ x ∈ g.nodes ∧ x ∈ keep)
      ∧ (∀ u ∈ keep, ∀ v ∈ keep, u ≠ v →
        ((g.contract keep).HasEdge u v ↔ ∃ n, g.Through (· ∉ keep) u n v)
          ∧ (∀ n, (g.contract keep).weight? u v = some n ↔
            IsLeast {n | g.Through (· ∉ keep) u n v} n)
          ∧ ∀ n, IsLeast {n | (g.contract keep).Walk u n v} n ↔
            IsLeast {n | g.Through (fun _ => True) u n v} n)
      ∧ ∀ order : List NodeId, order.Nodup → (∀ x, x ∈ order ↔ x ∈ g.nodes ∧ x ∉ keep) →
        order.foldl bypass g.withUnitWeights = g.contract keep
          ∧ ∀ before z after, order = before ++ z :: after →
            let c := before.foldl bypass g.withUnitWeights
            (g.nodeCount ≤ 2 ^ 31 + 1 → ¬c.CutsOff z)
              ∧ ∀ e ∈ c.shortcuts z, ∀ p q : ℕ,
                c.weight? e.source z = some p → c.weight? z e.target = some q →
                  e.weight = p + q ∨ ∃ w, c.weight? e.source e.target = some w ∧ w < e.weight := by
  have hcoherent := h.coherent
  have hmax : g.nodeCount ≤ maxWeight := Nat.le_of_lt_succ hsize
  refine ⟨fun x => mem_nodes_contract hcoherent keep, ?_, ?_⟩
  · intro u hu v hv hne
    exact ⟨hasEdge_contract hcoherent keep hne hu hv,
      fun n => weight?_contract_of_lt hcoherent hmax hne hu hv,
      fun n => isLeast_walk_contract hcoherent hmax hne hu hv⟩
  · intro order hnodup horder
    refine ⟨foldl_bypass_eq_contract hcoherent hnodup horder, ?_⟩
    intro before z after heq c
    have hbefore : before.Nodup := (List.nodup_append.1 (heq ▸ hnodup)).1
    have hstands := standsFor_foldl_bypass hcoherent hbefore
    exact ⟨fun hsmall => hstands.not_cutsOff hcoherent hsmall z,
      fun e he p q hp hq => hstands.weight_eq_or_cheaper hcoherent hmax he hp hq⟩

/-- From node 0 to node 3 there is a path of three hops and, over node 4, one of two. The nodes
between may go in any order, also in one that makes the longer path an edge first. -/
theorem contract_exact_detour :
    let edges : List (NodeId × NodeId) :=
      [(⟨0⟩, ⟨1⟩), (⟨1⟩, ⟨2⟩), (⟨2⟩, ⟨1⟩), (⟨2⟩, ⟨3⟩), (⟨0⟩, ⟨4⟩), (⟨4⟩, ⟨3⟩), (⟨4⟩, ⟨2⟩)]
    let g : Graph := edges.foldl (fun (g : Graph) e => g.addEdge e.1 e.2 9) {}
    let keep : NodeSet := .ofList [(⟨0⟩ : NodeId), ⟨3⟩]
    g.Built ∧ g.nodeCount < 2 ^ 32 ∧ (∃ n, g.Through (· ∉ keep) ⟨0⟩ n ⟨3⟩)
      ∧ IsLeast {n | g.Through (· ∉ keep) ⟨0⟩ n ⟨3⟩} 2
      ∧ [⟨2⟩, ⟨1⟩, ⟨4⟩].foldl bypass g.withUnitWeights = g.contract keep := by
  intro edges g keep
  have hbuilt : g.Built := List.foldlRecOn edges _ Built.empty fun _ h _ _ => h.addEdge _ _ _
  have hsize : g.nodeCount < 2 ^ 32 := by decide +kernel
  have hnodes : g.nodes = .ofList [(⟨0⟩ : NodeId), ⟨1⟩, ⟨2⟩, ⟨3⟩, ⟨4⟩] := by decide +kernel
  have horder : ∀ x : NodeId, x ∈ [(⟨2⟩ : NodeId), ⟨1⟩, ⟨4⟩] ↔ x ∈ g.nodes ∧ x ∉ keep := by
    rintro ⟨index⟩
    rw [hnodes, mem_ofList, mem_ofList]
    simp only [List.mem_cons, NodeId.mk.injEq, List.not_mem_nil, or_false]
    omega
  have hweight : (g.contract keep).weight? ⟨0⟩ ⟨3⟩ = some 2 := by decide +kernel
  obtain ⟨-, hpaths, hanyOrder⟩ := contract_exact hbuilt hsize keep
  obtain ⟨hedge, hleast, -⟩ :=
    hpaths ⟨0⟩ (by decide +kernel) ⟨3⟩ (by decide +kernel) (by decide)
  exact ⟨hbuilt, hsize, hedge.1 ⟨2, hweight⟩, (hleast 2).1 hweight,
    (hanyOrder _ (by decide) horder).1⟩

end Graph

end Meshcast
