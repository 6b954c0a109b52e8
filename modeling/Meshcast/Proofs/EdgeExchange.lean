import Mathlib.Algebra.BigOperators.Finprod
import Mathlib.Algebra.Order.BigOperators.Group.Finset
import Mathlib.Combinatorics.SimpleGraph.Acyclic
import Mathlib.Data.Finset.Sym
import Meshcast.Proofs.WeightedGraph

/-!
# Meshcast — the spanning trees of a graph, and exchanging an edge of one

A graph is spanned in either direction of its edges, at the weight of the lighter one.

* **`Graph.IsSpanningTree`**, **`Graph.weightOf`** — the spanning trees of a graph, and what they
  weigh.
* **`exists_exchange`** — in place of an edge that leads from `u` out of a part of the nodes, a tree
  has another one that leads out, and either of them does.
* **`Graph.Extensible`** — some edges are in a tree that is as light as any given one;
  **`Extensible.sup_edge`** — so are they with a lightest edge that leads out of where they are.
-/

namespace Meshcast

/-! ## Exchange -/

section Exchange

variable {V : Type} {T : SimpleGraph V} {part : Set V} {u v : V}

/-- A trail out of a part of the nodes has an edge that leads out, and it can do without that edge
before and after. -/
theorem exists_crossing_of_isTrail {walk : T.Walk u v} (htrail : walk.IsTrail) (hu : u ∈ part)
    (hv : v ∉ part) :
    ∃ a ∈ part, ∃ b ∉ part, s(a, b) ∈ walk.edges ∧ (T.deleteEdges {s(a, b)}).Reachable u a
      ∧ (T.deleteEdges {s(a, b)}).Reachable b v := by
  induction walk with
  | nil => exact absurd hu hv
  | @cons u w v hadj rest ih =>
    obtain ⟨hrest, honce⟩ := (SimpleGraph.Walk.isTrail_cons hadj rest).1 htrail
    rw [SimpleGraph.Walk.edges_cons]
    by_cases hw : w ∈ part
    · obtain ⟨a, ha, b, hb, hmem, hbefore, hafter⟩ := ih hrest hw hv
      refine ⟨a, ha, b, hb, List.mem_cons_of_mem _ hmem, ?_, hafter⟩
      -- the first edge is another one, since a trail does not repeat any
      have hfirst : (T.deleteEdges {s(a, b)}).Adj u w := by
        rw [SimpleGraph.deleteEdges_adj]
        refine ⟨hadj, fun heq => honce ?_⟩
        rwa [Set.mem_singleton_iff.1 heq]
      exact hfirst.reachable.trans hbefore
    · refine ⟨u, hu, w, hw, List.mem_cons_self, .refl u, ?_⟩
      refine ⟨rest.toDeleteEdges {s(u, w)} fun e he heq => honce ?_⟩
      rwa [← Set.mem_singleton_iff.1 heq]

/-- **Exchange.** A path in an acyclic graph from `u` in a part of the nodes to `v` outside has an
edge that leads out of the part. With the edge between `u` and `v` in its place the graph stays
acyclic and connects whatever it connected before. -/
theorem exists_exchange (hT : T.IsAcyclic) (hu : u ∈ part) (hv : v ∉ part)
    (hreach : T.Reachable u v) :
    ∃ a ∈ part, ∃ b ∉ part, T.Adj a b ∧ ¬(T.deleteEdges {s(a, b)}).Reachable u v
      ∧ ∀ x y, T.Reachable x y → (T.deleteEdges {s(a, b)} ⊔ .edge u v).Reachable x y := by
  classical
  obtain ⟨path, hpath⟩ := hreach.exists_isPath
  obtain ⟨a, ha, b, hb, hmem, hua, hbv⟩ := exists_crossing_of_isTrail hpath.isTrail hu hv
  have hadj : T.Adj a b := path.adj_of_mem_edges hmem
  have hbridge : ¬(T.deleteEdges {s(a, b)}).Reachable a b :=
    SimpleGraph.isBridge_iff.1 (SimpleGraph.isAcyclic_iff_forall_adj_isBridge.1 hT hadj)
  refine ⟨a, ha, b, hb, hadj, fun huv => hbridge (hua.symm.trans (huv.trans hbv.symm)), ?_⟩
  intro x y hxy
  have hne : u ≠ v := fun heq => hv (heq ▸ hu)
  have hle : T.deleteEdges {s(a, b)} ≤ T.deleteEdges {s(a, b)} ⊔ .edge u v := le_sup_left
  have huv : (T.deleteEdges {s(a, b)} ⊔ .edge u v).Adj u v :=
    .inr ((SimpleGraph.edge_adj u v u v).2 ⟨.inl ⟨rfl, rfl⟩, hne⟩)
  have hab : (T.deleteEdges {s(a, b)} ⊔ .edge u v).Reachable a b :=
    (hua.mono hle).symm.trans (huv.reachable.trans (hbv.mono hle).symm)
  rw [SimpleGraph.reachable_iff_reflTransGen] at hxy
  induction hxy with
  | refl => exact .refl x
  | @tail y z _ hyz ih =>
    refine ih.trans ?_
    by_cases heq : s(y, z) = s(a, b)
    · rcases Sym2.eq_iff.1 heq with ⟨rfl, rfl⟩ | ⟨rfl, rfl⟩
      · exact hab
      · exact hab.symm
    · have hkept : (T.deleteEdges {s(a, b)}).Adj y z :=
        SimpleGraph.deleteEdges_adj.2 ⟨hyz, heq⟩
      exact hkept.reachable.mono hle

end Exchange

namespace Graph

/-! ## Spanning trees -/

/-- The edges of a graph without their directions. -/
def undirected (g : Graph) : SimpleGraph NodeId :=
  .fromRel g.HasEdge

/-- A spanning tree has some edges of the graph, connects all its nodes, and has no cycles. -/
structure IsSpanningTree (g : Graph) (T : SimpleGraph NodeId) : Prop where
  le : T ≤ g.undirected
  acyclic : T.IsAcyclic
  reachable : ∀ u ∈ g.nodes, ∀ v ∈ g.nodes, T.Reachable u v

theorem undirectedWeight?_comm (g : Graph) (u v : NodeId) :
    g.undirectedWeight? u v = g.undirectedWeight? v u := by
  unfold undirectedWeight?
  cases g.weight? u v <;> cases g.weight? v u <;> simp [min_comm]

/-- The weight between the ends of an edge. -/
def edgeWeight (g : Graph) : Sym2 NodeId → ℕ :=
  Sym2.lift ⟨fun u v => (g.undirectedWeight? u v).getD 0,
    fun u v => congrArg (·.getD 0) (g.undirectedWeight?_comm u v)⟩

theorem edgeWeight_mk {g : Graph} {u v : NodeId} {w : Weight}
    (h : g.undirectedWeight? u v = some w) : g.edgeWeight s(u, v) = w := by
  show (g.undirectedWeight? u v).getD 0 = w
  rw [h]
  rfl

/-- What some edges weigh together. -/
noncomputable def weightOf (g : Graph) (T : SimpleGraph NodeId) : ℕ :=
  ∑ᶠ e ∈ T.edgeSet, g.edgeWeight e

variable {g : Graph} {T : SimpleGraph NodeId}

theorem Coherent.undirected_adj (h : g.Coherent) {u v : NodeId} :
    g.undirected.Adj u v ↔ g.HasEdge u v ∨ g.HasEdge v u := by
  unfold undirected
  rw [SimpleGraph.fromRel_adj]
  refine and_iff_right_of_imp fun hedge => ?_
  rintro rfl
  exact h.irreflexive u (hedge.elim id id)

theorem Coherent.mem_of_undirected_adj (h : g.Coherent) {u v : NodeId}
    (hadj : g.undirected.Adj u v) : u ∈ g.nodes ∧ v ∈ g.nodes := by
  rcases h.undirected_adj.1 hadj with hedge | hedge
  · exact ⟨h.source_mem u v hedge, h.target_mem u v hedge⟩
  · exact ⟨h.target_mem v u hedge, h.source_mem v u hedge⟩

theorem Coherent.finite_edgeSet (h : g.Coherent) (hle : T ≤ g.undirected) : T.edgeSet.Finite := by
  refine Set.Finite.subset (Finset.finite_toSet g.nodes.toList.toFinset.sym2) fun e => ?_
  induction e using Sym2.ind with
  | h u v =>
    intro hadj
    obtain ⟨hu, hv⟩ := h.mem_of_undirected_adj (hle hadj)
    rw [Finset.mem_coe, Finset.mk_mem_sym2_iff]
    exact ⟨List.mem_toFinset.2 (Std.ExtTreeSet.mem_toList.2 hu),
      List.mem_toFinset.2 (Std.ExtTreeSet.mem_toList.2 hv)⟩

/-! ## Weights -/

theorem weightOf_bot (g : Graph) : g.weightOf ⊥ = 0 := by
  unfold weightOf
  rw [SimpleGraph.edgeSet_bot, finsum_mem_empty]

theorem weightOf_sup_edge (g : Graph) (hfinite : T.edgeSet.Finite) {u v : NodeId} (hne : u ≠ v)
    (hnew : ¬T.Adj u v) : g.weightOf (T ⊔ .edge u v) = g.edgeWeight s(u, v) + g.weightOf T := by
  unfold weightOf
  rw [SimpleGraph.edgeSet_sup, SimpleGraph.edgeSet_edge_of_ne hne, Set.union_singleton,
    finsum_mem_insert _ (by exact hnew) hfinite]

theorem weightOf_deleteEdges (g : Graph) (hfinite : T.edgeSet.Finite) {u v : NodeId}
    (hadj : T.Adj u v) :
    g.weightOf T = g.edgeWeight s(u, v) + g.weightOf (T.deleteEdges {s(u, v)}) := by
  have hrest : (T.deleteEdges {s(u, v)}).edgeSet.Finite :=
    hfinite.subset (SimpleGraph.edgeSet_mono (SimpleGraph.deleteEdges_le _))
  have hback : T.deleteEdges {s(u, v)} ⊔ .edge u v = T := by
    ext x y
    rw [SimpleGraph.sup_adj, SimpleGraph.deleteEdges_adj, SimpleGraph.edge_adj,
      Set.mem_singleton_iff, Sym2.eq_iff]
    constructor
    · rintro (h | ⟨⟨rfl, rfl⟩ | ⟨rfl, rfl⟩, -⟩)
      · exact h.1
      · exact hadj
      · exact hadj.symm
    · intro h
      by_cases hends : x = u ∧ y = v ∨ x = v ∧ y = u
      · exact .inr ⟨hends, h.ne⟩
      · exact .inl ⟨h, hends⟩
  have hgone : ¬(T.deleteEdges {s(u, v)}).Adj u v :=
    fun h => (SimpleGraph.deleteEdges_adj.1 h).2 rfl
  rw [← g.weightOf_sup_edge hrest hadj.ne hgone, hback]

theorem weightOf_mono (g : Graph) {T' : SimpleGraph NodeId} (hle : T ≤ T')
    (hfinite : T'.edgeSet.Finite) : g.weightOf T ≤ g.weightOf T' := by
  have hsubset : T.edgeSet ⊆ T'.edgeSet := SimpleGraph.edgeSet_mono hle
  unfold weightOf
  rw [finsum_mem_eq_finite_toFinset_sum _ hfinite,
    finsum_mem_eq_finite_toFinset_sum _ (hfinite.subset hsubset)]
  exact Finset.sum_le_sum_of_subset (Set.Finite.toFinset_mono hsubset)

/-! ## Edges that are in a lightest tree -/

/-- No tree is lighter than all those that have the edges of `F`. -/
def Extensible (g : Graph) (F : SimpleGraph NodeId) : Prop :=
  ∀ T, g.IsSpanningTree T → ∃ T', g.IsSpanningTree T' ∧ F ≤ T' ∧ g.weightOf T' ≤ g.weightOf T

theorem extensible_bot (g : Graph) : g.Extensible ⊥ :=
  fun T hT => ⟨T, hT, bot_le, le_rfl⟩

/-- **A lightest edge out of a part of the nodes can be taken.** Some tree with the edges taken so
far, all of them inside the part, has an edge that leads out where the path between the ends of the
new one does. That edge is not lighter, so it can be exchanged. -/
theorem Extensible.sup_edge (h : g.Coherent) {F : SimpleGraph NodeId} (hF : g.Extensible F)
    (part : Set NodeId) (hinside : ∀ a b, F.Adj a b → a ∈ part ∧ b ∈ part) {u v : NodeId}
    (hadj : g.undirected.Adj u v) (hu : u ∈ part) (hv : v ∉ part)
    (hlightest : ∀ a ∈ part, ∀ b ∉ part, g.undirected.Adj a b →
      g.edgeWeight s(u, v) ≤ g.edgeWeight s(a, b)) : g.Extensible (F ⊔ .edge u v) := by
  intro T₀ hT₀
  obtain ⟨T, hT, hsubset, hweight⟩ := hF T₀ hT₀
  obtain ⟨hunode, hvnode⟩ := h.mem_of_undirected_adj hadj
  obtain ⟨a, ha, b, hb, hab, hapart, hconnects⟩ :=
    exists_exchange hT.acyclic hu hv (hT.reachable u hunode v hvnode)
  have hedge : .edge u v ≤ g.undirected := (SimpleGraph.edge_le_iff _).2 (.inr hadj)
  have hdeleted : T.deleteEdges {s(a, b)} ≤ T := SimpleGraph.deleteEdges_le _
  refine ⟨T.deleteEdges {s(a, b)} ⊔ .edge u v, ⟨?_, ?_, ?_⟩, ?_, ?_⟩
  · exact sup_le (hdeleted.trans hT.le) hedge
  · exact (SimpleGraph.isAcyclic_add_edge_iff_of_not_reachable u v hapart).2
      (hT.acyclic.anti hdeleted)
  · exact fun x hx y hy => hconnects x y (hT.reachable x hx y hy)
  · refine sup_le_sup_right (fun x y hxy => ?_) _
    rw [SimpleGraph.deleteEdges_adj]
    refine ⟨hsubset hxy, fun heq => ?_⟩
    -- the edges taken so far do not lead out
    obtain ⟨hx, hy⟩ := hinside x y hxy
    rcases Sym2.eq_iff.1 heq with ⟨rfl, rfl⟩ | ⟨rfl, rfl⟩
    · exact hb hy
    · exact hb hx
  · have hfinite := h.finite_edgeSet hT.le
    have hrest := h.finite_edgeSet (hdeleted.trans hT.le)
    refine le_trans ?_ hweight
    rw [g.weightOf_sup_edge hrest hadj.ne fun huv => hapart huv.reachable,
      g.weightOf_deleteEdges hfinite hab]
    exact Nat.add_le_add_right (hlightest a ha b hb (hT.le hab)) _

end Graph

end Meshcast
