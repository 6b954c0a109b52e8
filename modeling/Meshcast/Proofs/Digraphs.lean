import Mathlib.Data.Set.Card
import Mathlib.Data.Set.Insert
import Mathlib.Logic.Relation
import Meshcast.Proofs.Contraction
import Meshcast.Proofs.Reachability

/-!
# Meshcast — graphs as weighted digraphs

What the three parts of a graph stand for is a set of nodes and a weight for some of the pairs of
them. Such a digraph has operations of its own, each said in one line: which nodes there are
afterwards, and which weights. This module says that a graph follows its digraph through any
sequence of changes, that none of its indexes falls behind, and that all questions about it are
answered as they are answered for the digraph.

* **`WeightedDigraph`** — nodes and weights, with edges only between two different nodes.
* **`Graph.Represents`** — a graph stands for a digraph, and its indexes agree.
* **`Represents.apply`** — one change.
* **`Represents.insertNode_iff`**, **`Represents.takeNode_iff`** — what changes of nodes answer.
* **`pairwise_edges`**, **`edgeCount_eq_length`** — the list of the edges and their number.
* **`isWeaklyConnected_iff`** — the search from one node tells about all pairs.
* **`graph_tracks_digraph`** — any sequence of changes.
-/

namespace Meshcast

/-- A change to a graph. The last three go on with another graph that is made of it. -/
inductive GraphChange
  | addNode (node : NodeId)
  | removeNode (node : NodeId)
  | addEdge (u v : NodeId) (weight : Weight)
  | connect (u v : NodeId) (weight : Weight)
  | addEdgeIfCheaper (u v : NodeId) (weight : Weight)
  | removeEdge (u v : NodeId)
  | withUnitWeights
  | restrictedTo (keep : NodeSet)
  /-- A graph is a value, and a copy of it is the graph. -/
  | copy

/-! ## The digraph -/

/-- A set of nodes and the weights of the edges between some of them. -/
@[ext]
structure WeightedDigraph where
  nodes : Set NodeId
  weight? : NodeId → NodeId → Option Weight
  ends : ∀ u v weight, weight? u v = some weight → u ≠ v ∧ u ∈ nodes ∧ v ∈ nodes

namespace WeightedDigraph

def HasEdge (d : WeightedDigraph) (u v : NodeId) : Prop :=
  ∃ weight, d.weight? u v = some weight

/-- There is an edge in one direction or the other. -/
def Adjacent (d : WeightedDigraph) (u v : NodeId) : Prop :=
  d.HasEdge u v ∨ d.HasEdge v u

instance (d : WeightedDigraph) : Std.Symm d.Adjacent :=
  ⟨fun _ _ => Or.symm⟩

def empty : WeightedDigraph where
  nodes := ∅
  weight? _ _ := none
  ends _ _ weight h := absurd h.symm (Option.some_ne_none weight)

def addNode (d : WeightedDigraph) (node : NodeId) : WeightedDigraph where
  nodes := insert node d.nodes
  weight? := d.weight?
  ends u v weight h := by
    obtain ⟨hne, hu, hv⟩ := d.ends u v weight h
    exact ⟨hne, .inr hu, .inr hv⟩

/-- The digraph without a node and without the edges at it. -/
def removeNode (d : WeightedDigraph) (node : NodeId) : WeightedDigraph where
  nodes := d.nodes \ {node}
  weight? a b := if a = node ∨ b = node then none else d.weight? a b
  ends u v weight h := by
    split at h
    · cases h
    · rename_i hother
      rw [not_or] at hother
      obtain ⟨hne, hu, hv⟩ := d.ends u v weight h
      exact ⟨hne, ⟨hu, hother.1⟩, ⟨hv, hother.2⟩⟩

/-- The digraph with a weight for one edge, whatever its weight was, and with the ends of the edge. A
loop changes nothing. -/
def addEdge (d : WeightedDigraph) (u v : NodeId) (weight : Weight) : WeightedDigraph where
  nodes := {x | u ≠ v ∧ (x = u ∨ x = v) ∨ x ∈ d.nodes}
  weight? a b := if a ≠ b ∧ a = u ∧ b = v then some weight else d.weight? a b
  ends a b w h := by
    split at h
    · rename_i hends
      obtain ⟨hne, rfl, rfl⟩ := hends
      exact ⟨hne, .inl ⟨hne, .inl rfl⟩, .inl ⟨hne, .inr rfl⟩⟩
    · obtain ⟨hne, ha, hb⟩ := d.ends a b w h
      exact ⟨hne, .inr ha, .inr hb⟩

/-- The digraph with the same weight for both directions between two nodes. -/
def connect (d : WeightedDigraph) (u v : NodeId) (weight : Weight) : WeightedDigraph where
  nodes := {x | u ≠ v ∧ (x = u ∨ x = v) ∨ x ∈ d.nodes}
  weight? a b :=
    if a ≠ b ∧ (a = u ∧ b = v ∨ a = v ∧ b = u) then some weight else d.weight? a b
  ends a b w h := by
    split at h
    · rename_i hends
      obtain ⟨hne, ⟨rfl, rfl⟩ | ⟨rfl, rfl⟩⟩ := hends
      · exact ⟨hne, .inl ⟨hne, .inl rfl⟩, .inl ⟨hne, .inr rfl⟩⟩
      · exact ⟨hne, .inl ⟨Ne.symm hne, .inr rfl⟩, .inl ⟨Ne.symm hne, .inl rfl⟩⟩
    · obtain ⟨hne, ha, hb⟩ := d.ends a b w h
      exact ⟨hne, .inr ha, .inr hb⟩

/-- The digraph in which an edge has the lighter of a weight and the one it has, if it has one. -/
def addEdgeIfCheaper (d : WeightedDigraph) (u v : NodeId) (weight : Weight) : WeightedDigraph :=
  d.addEdge u v ((d.weight? u v).elim weight (min weight))

def removeEdge (d : WeightedDigraph) (u v : NodeId) : WeightedDigraph where
  nodes := d.nodes
  weight? a b := if a = u ∧ b = v then none else d.weight? a b
  ends a b weight h := by
    split at h
    · cases h
    · exact d.ends a b weight h

def withUnitWeights (d : WeightedDigraph) : WeightedDigraph where
  nodes := d.nodes
  weight? a b := (d.weight? a b).map fun _ => unitWeight
  ends a b weight h := by
    obtain ⟨old, hold, -⟩ := Option.map_eq_some_iff.1 h
    exact d.ends a b old hold

/-- The subgraph that some of the nodes induce. -/
def restrictedTo (d : WeightedDigraph) (keep : NodeSet) : WeightedDigraph where
  nodes := {x ∈ d.nodes | x ∈ keep}
  weight? a b := if a ∈ keep ∧ b ∈ keep then d.weight? a b else none
  ends a b weight h := by
    split at h
    · rename_i hkeep
      obtain ⟨hne, ha, hb⟩ := d.ends a b weight h
      exact ⟨hne, ⟨ha, hkeep.1⟩, ⟨hb, hkeep.2⟩⟩
    · cases h

/-- What a change is to make of the digraph. -/
def apply (d : WeightedDigraph) : GraphChange → WeightedDigraph
  | .addNode node => d.addNode node
  | .removeNode node => d.removeNode node
  | .addEdge u v weight => d.addEdge u v weight
  | .connect u v weight => d.connect u v weight
  | .addEdgeIfCheaper u v weight => d.addEdgeIfCheaper u v weight
  | .removeEdge u v => d.removeEdge u v
  | .withUnitWeights => d.withUnitWeights
  | .restrictedTo keep => d.restrictedTo keep
  | .copy => d

/-- The digraph after a sequence of changes, with nothing in it at first. -/
def after (changes : List GraphChange) : WeightedDigraph :=
  changes.foldl apply empty

/-- To connect two nodes is to add an edge in either direction. -/
theorem connect_eq_addEdge (d : WeightedDigraph) (u v : NodeId) (weight : Weight) :
    d.connect u v weight = (d.addEdge u v weight).addEdge v u weight := by
  refine WeightedDigraph.ext (Set.ext fun x => ?_) (funext₂ fun a b => ?_)
  · show u ≠ v ∧ (x = u ∨ x = v) ∨ x ∈ d.nodes ↔
      v ≠ u ∧ (x = v ∨ x = u) ∨ u ≠ v ∧ (x = u ∨ x = v) ∨ x ∈ d.nodes
    rw [ne_comm (a := v), or_comm (a := x = v), or_self_left]
  · show (if a ≠ b ∧ (a = u ∧ b = v ∨ a = v ∧ b = u) then some weight else d.weight? a b) =
      if a ≠ b ∧ a = v ∧ b = u then some weight
      else if a ≠ b ∧ a = u ∧ b = v then some weight else d.weight? a b
    rw [← ite_or]
    exact if_congr (by rw [← and_or_left, or_comm]) rfl rfl

/-- Nothing changes exactly if the edge would be a loop or one at most as heavy is there. -/
theorem addEdgeIfCheaper_eq_self_iff {d : WeightedDigraph} {u v : NodeId} {weight : Weight} :
    d.addEdgeIfCheaper u v weight = d ↔ u = v ∨ ∃ old ≤ weight, d.weight? u v = some old := by
  constructor
  · intro hsame
    by_cases hne : u = v
    · exact .inl hne
    have hweight := congrFun₂ (congrArg WeightedDigraph.weight? hsame) u v
    change (if u ≠ v ∧ u = u ∧ v = v then some _ else _) = _ at hweight
    rw [if_pos ⟨hne, rfl, rfl⟩] at hweight
    cases hold : d.weight? u v with
    | none =>
      rw [hold] at hweight
      cases hweight
    | some old =>
      rw [hold, Option.elim_some, Option.some_inj] at hweight
      exact .inr ⟨old, hweight ▸ Nat.min_le_left weight old, rfl⟩
  · intro hstays
    refine WeightedDigraph.ext (Set.ext fun x => ?_) (funext₂ fun a b => ?_)
    · show u ≠ v ∧ (x = u ∨ x = v) ∨ x ∈ d.nodes ↔ x ∈ d.nodes
      refine or_iff_right_of_imp ?_
      rintro ⟨hne, hx⟩
      obtain ⟨old, -, hold⟩ := hstays.resolve_left hne
      obtain ⟨-, hu, hv⟩ := d.ends u v old hold
      rcases hx with rfl | rfl
      · exact hu
      · exact hv
    · show (if a ≠ b ∧ a = u ∧ b = v then some _ else d.weight? a b) = d.weight? a b
      split
      · rename_i hends
        obtain ⟨hne, rfl, rfl⟩ := hends
        obtain ⟨old, hle, hold⟩ := hstays.resolve_left hne
        rw [hold, Option.elim_some, Nat.min_eq_right hle]
      · rfl

end WeightedDigraph

/-- The pair of nodes that an edge joins. -/
def Edge.arc (e : Edge) : Arc :=
  { source := e.source, target := e.target }

/-! ## The graph -/

namespace Graph

/-- A change, without its answer. -/
def apply (g : Graph) : GraphChange → Graph
  | .addNode node => g.addNode node
  | .removeNode node => g.removeNode node
  | .addEdge u v weight => g.addEdge u v weight
  | .connect u v weight => g.connect u v weight
  | .addEdgeIfCheaper u v weight => (g.addEdgeIfCheaper u v weight).2
  | .removeEdge u v => (g.removeEdge u v).2
  | .withUnitWeights => g.withUnitWeights
  | .restrictedTo keep => g.restrictedTo keep
  | .copy => g

/-- The graph after a sequence of changes, from the empty one on. -/
def after (changes : List GraphChange) : Graph :=
  changes.foldl apply {}

/-- The indexes of the graph agree, and they say what the digraph says. -/
structure Represents (g : Graph) (d : WeightedDigraph) : Prop where
  coherent : g.Coherent
  mem_nodes : ∀ x, x ∈ g.nodes ↔ x ∈ d.nodes
  weight?_eq : ∀ u v, g.weight? u v = d.weight? u v

variable {g : Graph} {d : WeightedDigraph}

theorem represents_empty : ({} : Graph).Represents .empty where
  coherent := coherent_empty
  mem_nodes _ := iff_of_false Std.ExtTreeSet.not_mem_empty id
  weight?_eq u v := by simp [weight?, targets, WeightedDigraph.empty]

theorem Represents.hasEdge_iff (h : g.Represents d) {u v : NodeId} :
    g.HasEdge u v ↔ d.HasEdge u v := by
  unfold HasEdge WeightedDigraph.HasEdge
  rw [h.weight?_eq]

theorem Represents.contains_iff (h : g.Represents d) {node : NodeId} :
    g.contains node = true ↔ node ∈ d.nodes := by
  rw [← h.mem_nodes]
  exact Std.ExtTreeSet.contains_iff_mem

/-! ## One change -/

/-- Adding a node answers whether it was missing. -/
theorem Represents.insertNode_iff (h : g.Represents d) {node : NodeId} :
    (g.insertNode node).1 = true ↔ node ∉ d.nodes := by
  unfold insertNode
  rw [Bool.not_eq_true', ← Bool.not_eq_true, h.contains_iff]

/-- Taking a node away answers whether it was there. -/
theorem Represents.takeNode_iff (h : g.Represents d) {node : NodeId} :
    (g.takeNode node).1 = true ↔ node ∈ d.nodes := by
  rw [← h.contains_iff]
  unfold takeNode
  split <;> simp [*]

section OneChange

variable (h : g.Represents d)

include h

theorem Represents.addEdge (u v : NodeId) (weight : Weight) :
    (g.addEdge u v weight).Represents (d.addEdge u v weight) := by
  refine ⟨h.coherent.addEdge u v weight, fun x => ?_, fun a b => ?_⟩
  · show _ ↔ u ≠ v ∧ (x = u ∨ x = v) ∨ x ∈ d.nodes
    by_cases hne : u = v
    · rw [hne, addEdge_self, h.mem_nodes]
      simp
    · rw [mem_nodes_addEdge hne, h.mem_nodes, or_left_comm, and_iff_right hne, or_assoc]
  · show _ = if a ≠ b ∧ a = u ∧ b = v then some weight else d.weight? a b
    by_cases hne : u = v
    · subst hne
      rw [addEdge_self, h.weight?_eq, if_neg]
      rintro ⟨hab, rfl, rfl⟩
      exact hab rfl
    · rw [weight?_addEdge hne, h.weight?_eq]
      refine if_congr (iff_and_self.2 ?_) rfl rfl
      rintro ⟨rfl, rfl⟩
      exact hne

theorem Represents.connect (u v : NodeId) (weight : Weight) :
    (g.connect u v weight).Represents (d.connect u v weight) := by
  rw [d.connect_eq_addEdge]
  exact (h.addEdge u v weight).addEdge v u weight

/-- An edge is refused exactly if it would make no difference. -/
theorem Represents.refuses_iff (u v : NodeId) (weight : Weight) :
    (u = v || (g.weight? u v).any (· ≤ weight)) = true ↔ d.addEdgeIfCheaper u v weight = d := by
  rw [WeightedDigraph.addEdgeIfCheaper_eq_self_iff, h.weight?_eq, Bool.or_eq_true,
    decide_eq_true_iff, Option.any_eq_true]
  simp only [decide_eq_true_iff, and_comm]

theorem Represents.addEdgeIfCheaper (u v : NodeId) (weight : Weight) :
    (g.addEdgeIfCheaper u v weight).2.Represents (d.addEdgeIfCheaper u v weight)
      ∧ ((g.addEdgeIfCheaper u v weight).1 = true ↔ d.addEdgeIfCheaper u v weight ≠ d) := by
  have hrefuses := h.refuses_iff u v weight
  unfold Graph.addEdgeIfCheaper
  split
  · rename_i hrefused
    have hsame := hrefuses.1 hrefused
    rw [hsame]
    exact ⟨h, iff_of_false Bool.false_ne_true fun hne => hne rfl⟩
  · rename_i hadded
    refine ⟨?_, iff_of_true rfl (mt hrefuses.2 hadded)⟩
    have hlighter : (d.weight? u v).elim weight (min weight) = weight := by
      cases hold : d.weight? u v with
      | none => rfl
      | some old =>
        refine Nat.min_eq_left (Nat.le_of_not_le fun hle => hadded (hrefuses.2 ?_))
        exact WeightedDigraph.addEdgeIfCheaper_eq_self_iff.2 (.inr ⟨old, hle, hold⟩)
    unfold WeightedDigraph.addEdgeIfCheaper
    rw [hlighter]
    exact h.addEdge u v weight

theorem Represents.addNode (node : NodeId) : (g.addNode node).Represents (d.addNode node) where
  coherent := h.coherent.addNode node
  mem_nodes x := mem_nodes_addNode.trans (or_congr_right (h.mem_nodes x))
  weight?_eq := h.weight?_eq

theorem Represents.removeNode (node : NodeId) :
    (g.removeNode node).Represents (d.removeNode node) where
  coherent := h.coherent.removeNode node
  mem_nodes x := by
    rw [mem_nodes_removeNode, h.mem_nodes, and_comm]
    rfl
  weight?_eq a b := by
    rw [weight?_removeNode h.coherent, h.weight?_eq]
    rfl

theorem Represents.removeEdge (u v : NodeId) :
    (g.removeEdge u v).2.Represents (d.removeEdge u v) ∧ (g.removeEdge u v).1 = d.weight? u v := by
  refine ⟨⟨h.coherent.removeEdge u v, fun x => ?_, fun a b => ?_⟩, ?_⟩
  · rw [nodes_removeEdge, h.mem_nodes]
    rfl
  · rw [weight?_removeEdge, h.weight?_eq]
    rfl
  · rw [← h.weight?_eq]
    unfold Graph.removeEdge
    split
    · simp [*]
    · simp [*]

theorem Represents.withUnitWeights : g.withUnitWeights.Represents d.withUnitWeights where
  coherent := h.coherent.withUnitWeights
  mem_nodes := h.mem_nodes
  weight?_eq a b := by
    rw [weight?_withUnitWeights, h.weight?_eq]
    rfl

theorem Represents.restrictedTo (keep : NodeSet) :
    (g.restrictedTo keep).Represents (d.restrictedTo keep) where
  coherent := coherent_restrictedTo g keep
  mem_nodes x := by
    rw [mem_nodes_restrictedTo h.coherent, h.mem_nodes]
    rfl
  weight?_eq a b := by
    rw [weight?_restrictedTo h.coherent, h.weight?_eq]
    rfl

/-- **One change.** What it makes of the graph stands for what it makes of the digraph. -/
theorem Represents.apply (change : GraphChange) : (g.apply change).Represents (d.apply change) := by
  cases change with
  | addNode node => exact h.addNode node
  | removeNode node => exact h.removeNode node
  | addEdge u v weight => exact h.addEdge u v weight
  | connect u v weight => exact h.connect u v weight
  | addEdgeIfCheaper u v weight => exact (h.addEdgeIfCheaper u v weight).1
  | removeEdge u v => exact (h.removeEdge u v).1
  | withUnitWeights => exact h.withUnitWeights
  | restrictedTo keep => exact h.restrictedTo keep
  | copy => exact h

end OneChange

/-! ## The edges

They are listed row by row, and each row by target. -/

theorem pairwise_edges (g : Graph) :
    g.edges.Pairwise fun e e' => compare e.arc e'.arc = .lt := by
  have hcompare : ∀ e e' : Edge, compare e.arc e'.arc =
      (compare e.source e'.source).then (compare e.target e'.target) := fun _ _ => rfl
  unfold edges
  rw [List.pairwise_flatMap]
  constructor
  · rintro ⟨source, row⟩ -
    rw [List.pairwise_map]
    refine row.ordered_keys_toList.imp fun hlt => ?_
    rw [hcompare, Std.compare_self, Ordering.eq_then]
    exact hlt
  · refine g.outgoing.ordered_keys_toList.imp fun {entry entry'} hlt e he e' he' => ?_
    obtain ⟨_, -, rfl⟩ := List.mem_map.1 he
    obtain ⟨_, -, rfl⟩ := List.mem_map.1 he'
    rw [hcompare, hlt]
    rfl

theorem foldl_add_eq_length_flatMap {α β : Type} {size : α → Nat} {listed : α → List β}
    (h : ∀ a, (listed a).length = size a) (l : List α) (count : Nat) :
    l.foldl (fun count a => count + size a) count = count + (l.flatMap listed).length := by
  induction l generalizing count with
  | nil => rfl
  | cons a rest ih =>
    rw [List.foldl_cons, ih, List.flatMap_cons, List.length_append, h, Nat.add_assoc]

/-- Adding up the sizes of the rows counts the listed edges. -/
theorem edgeCount_eq_length (g : Graph) : g.edgeCount = g.edges.length := by
  unfold edgeCount edges
  rw [Std.ExtTreeMap.foldl_eq_foldl_toList, foldl_add_eq_length_flatMap, Nat.zero_add]
  intro row
  rw [List.length_map, Std.ExtTreeMap.length_toList]

theorem Represents.mem_edges (h : g.Represents d) {e : Edge} :
    e ∈ g.edges ↔ d.weight? e.source e.target = some e.weight := by
  rw [Graph.mem_edges, h.weight?_eq]

/-- There are as many edges as ordered pairs of nodes with a weight. -/
theorem Represents.edgeCount_eq (h : g.Represents d) :
    g.edgeCount = {arc : Arc | d.HasEdge arc.source arc.target}.ncard := by
  classical
  have hnodup : (g.edges.map Edge.arc).Nodup := by
    rw [List.Nodup, List.pairwise_map]
    refine g.pairwise_edges.imp fun hlt heq => ?_
    rw [heq, Std.compare_self] at hlt
    nomatch hlt
  have hset : {arc : Arc | d.HasEdge arc.source arc.target} =
      ((g.edges.map Edge.arc).toFinset : Set Arc) := by
    ext arc
    rw [Finset.mem_coe, List.mem_toFinset, List.mem_map]
    constructor
    · rintro ⟨weight, hweight⟩
      exact ⟨⟨arc.source, arc.target, weight⟩, h.mem_edges.2 hweight, rfl⟩
    · rintro ⟨e, he, rfl⟩
      exact ⟨e.weight, h.mem_edges.1 he⟩
  rw [hset, Set.ncard_coe_finset, List.toFinset_card_of_nodup hnodup, List.length_map,
    edgeCount_eq_length]

/-! ## What edges lead to -/

theorem Represents.mem_reachableFrom (h : g.Represents d) {root x : NodeId} :
    x ∈ g.reachableFrom root ↔ root ∈ d.nodes ∧ Relation.ReflTransGen d.HasEdge root x := by
  by_cases hroot : root ∈ g.nodes
  · rw [Graph.mem_reachableFrom h.coherent hroot, and_iff_right ((h.mem_nodes root).1 hroot)]
    simp only [funext₂ fun a b => propext (h.hasEdge_iff (u := a) (v := b))]
  · have hcontains : g.contains root = false := contains_eq_false.2 hroot
    unfold reachableFrom
    rw [hcontains, if_neg Bool.false_ne_true]
    exact iff_of_false Std.ExtTreeSet.not_mem_empty fun hx => hroot ((h.mem_nodes root).2 hx.1)

theorem Represents.mem_neighbors (h : g.Represents d) {u v : NodeId} :
    v ∈ g.neighbors u ↔ d.Adjacent u v := by
  unfold neighbors WeightedDigraph.Adjacent
  rw [Std.ExtTreeSet.mem_union_iff, mem_successors, h.coherent.mem_predecessors, h.hasEdge_iff,
    h.hasEdge_iff]

/-- A node that is next to another one is in the graph. -/
theorem Represents.mem_nodes_of_neighbors (h : g.Represents d) {u v : NodeId}
    (hv : v ∈ g.neighbors u) : v ∈ g.nodes := by
  rw [h.mem_nodes]
  rcases h.mem_neighbors.1 hv with ⟨weight, hweight⟩ | ⟨weight, hweight⟩
  · exact (d.ends u v weight hweight).2.2
  · exact (d.ends v u weight hweight).2.1

theorem Represents.mem_closure (h : g.Represents d) {start x : NodeId} (hstart : start ∈ g.nodes) :
    x ∈ g.closure g.neighbors start ↔ Relation.ReflTransGen d.Adjacent start x := by
  rw [Graph.mem_closure (fun _ _ => h.mem_nodes_of_neighbors) hstart,
    funext₂ fun u v => propext (h.mem_neighbors (u := u) (v := v))]

/-- From the least node everything is reached exactly if every node hangs together with every other
one, since edges may be taken back. -/
theorem Represents.isWeaklyConnected_iff (h : g.Represents d) :
    g.isWeaklyConnected = true ↔
      ∀ u ∈ d.nodes, ∀ v ∈ d.nodes, Relation.ReflTransGen d.Adjacent u v := by
  unfold isWeaklyConnected
  cases hmin : g.nodes.min? with
  | none =>
    rw [Std.ExtTreeSet.min?_eq_none_iff] at hmin
    refine iff_of_true rfl fun u hu => ?_
    rw [← h.mem_nodes, hmin] at hu
    exact absurd hu Std.ExtTreeSet.not_mem_empty
  | some start =>
    have hstart : start ∈ g.nodes := Std.ExtTreeSet.min?_mem hmin
    have hinside : ∀ x ∈ g.closure g.neighbors start, x ∈ g.nodes := by
      intro x hx
      rcases Relation.ReflTransGen.cases_tail ((h.mem_closure hstart).1 hx) with rfl | ⟨u, -, hu⟩
      · exact hstart
      · exact h.mem_nodes_of_neighbors (h.mem_neighbors.2 hu)
    show decide (_ = g.nodes.size) = true ↔ _
    rw [decide_eq_true_iff, size_eq_iff_of_subset hinside]
    simp only [h.mem_closure hstart, h.mem_nodes]
    constructor
    · intro hreached u hu v hv
      have hback : Relation.ReflTransGen d.Adjacent u start := Std.Symm.symm _ _ (hreached u hu)
      exact hback.trans (hreached v hv)
    · exact fun hjoined => hjoined start ((h.mem_nodes start).1 hstart)

end Graph

/-! ## Sequences of changes -/

theorem Graph.represents_after (changes : List GraphChange) :
    (Graph.after changes).Represents (WeightedDigraph.after changes) := by
  have hrun : ∀ {g : Graph} {d : WeightedDigraph}, g.Represents d →
      (changes.foldl Graph.apply g).Represents (changes.foldl WeightedDigraph.apply d) := by
    induction changes with
    | nil => exact fun h => h
    | cons change rest ih => exact fun h => ih (h.apply change)
  exact hrun Graph.represents_empty

/-- **A graph is a weighted digraph, and its parts agree.** After any sequence of changes to the empty
graph, nodes and weights are those of the digraph that the same changes make, sources and targets
say the same of every edge, edges join two different nodes of the graph, and every edge is listed
once, in order, and counted. Whatever change comes next, it has on the graph the effect that it has
on the digraph, and its answer tells what there was or whether anything changed. What is reachable
from a node of the graph is what directed paths lead to, and the graph hangs together exactly if any
two of its nodes are joined by a path that may go against the edges. -/
theorem graph_tracks_digraph (changes : List GraphChange) :
    let g := Graph.after changes
    let d := WeightedDigraph.after changes
    -- the parts of the graph
    (∀ x, x ∈ g.nodes ↔ x ∈ d.nodes)
    ∧ (∀ u v, g.weight? u v = d.weight? u v)
    ∧ (∀ u v, v ∈ g.successors u ↔ u ∈ g.predecessors v)
    ∧ (∀ u v, v ∈ g.successors u → u ≠ v ∧ u ∈ g.nodes ∧ v ∈ g.nodes)
    -- the edges
    ∧ (∀ u v weight, ⟨u, v, weight⟩ ∈ g.edges ↔ g.weight? u v = some weight)
    ∧ g.edges.Pairwise (fun e e' => compare e.arc e'.arc = .lt)
    ∧ g.edgeCount = g.edges.length
    ∧ g.edgeCount = {arc : Arc | d.HasEdge arc.source arc.target}.ncard
    -- the next change and its answer
    ∧ (∀ change, (g.apply change).Represents (d.apply change))
    ∧ (∀ node, g.contains node = true ↔ node ∈ d.nodes)
    ∧ (∀ node, (g.insertNode node).1 = true ↔ node ∉ d.nodes)
    ∧ (∀ node, (g.takeNode node).1 = true ↔ node ∈ d.nodes)
    ∧ (∀ u v weight,
        (g.addEdgeIfCheaper u v weight).1 = true ↔ d.addEdgeIfCheaper u v weight ≠ d)
    ∧ (∀ u v, (g.removeEdge u v).1 = d.weight? u v)
    -- paths
    ∧ (∀ root x, x ∈ g.reachableFrom root ↔
        root ∈ d.nodes ∧ Relation.ReflTransGen d.HasEdge root x)
    ∧ (g.isWeaklyConnected = true ↔
        ∀ u ∈ d.nodes, ∀ v ∈ d.nodes, Relation.ReflTransGen d.Adjacent u v) := by
  intro g d
  have h : g.Represents d := Graph.represents_after changes
  refine ⟨h.mem_nodes, h.weight?_eq, fun u v => ?_, fun u v hv => ?_, fun u v weight => ?_,
    g.pairwise_edges, g.edgeCount_eq_length, h.edgeCount_eq, fun change => h.apply change,
    fun node => h.contains_iff, fun node => h.insertNode_iff, fun node => h.takeNode_iff,
    fun u v weight => (h.addEdgeIfCheaper u v weight).2,
    fun u v => (h.removeEdge u v).2, fun root x => h.mem_reachableFrom, h.isWeaklyConnected_iff⟩
  · rw [Graph.mem_successors, h.coherent.mem_predecessors]
  · obtain ⟨weight, hweight⟩ := Graph.mem_successors.1 hv
    rw [h.mem_nodes, h.mem_nodes]
    exact d.ends u v weight (h.weight?_eq u v ▸ hweight)
  · rw [Graph.mem_edges]

end Meshcast
