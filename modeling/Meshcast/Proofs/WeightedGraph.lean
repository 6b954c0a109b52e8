import Meshcast.Graph.Basic
import Meshcast.Proofs.NodeSets

/-!
# Meshcast — the two indexes of a graph agree

* **`Graph.Coherent`** — what holds of every graph: the index of sources says the same as the
  weights, edges join nodes of the graph, and there are no loops.
* **`weight?_addEdge`**, **`weight?_removeNode`**, **`weight?_restrictedTo`**, … — what each change
  does to the weights.
* **`Coherent.addEdge`**, **`Coherent.removeNode`**, **`coherent_restrictedTo`**, … — each change
  leaves a graph coherent.
-/

namespace Meshcast

namespace Graph

/-- There is an edge from `u` to `v`. -/
def HasEdge (g : Graph) (u v : NodeId) : Prop :=
  ∃ weight, g.weight? u v = some weight

/-- The indexes agree, edges join nodes, and there are no loops. -/
structure Coherent (g : Graph) : Prop where
  mem_predecessors : ∀ u v, u ∈ g.predecessors v ↔ g.HasEdge u v
  source_mem : ∀ u v, g.HasEdge u v → u ∈ g.nodes
  target_mem : ∀ u v, g.HasEdge u v → v ∈ g.nodes
  irreflexive : ∀ u, ¬g.HasEdge u u

theorem mem_successors {g : Graph} {u v : NodeId} : v ∈ g.successors u ↔ g.HasEdge u v := by
  unfold successors HasEdge weight?
  rw [mem_ofList, Std.ExtTreeMap.mem_keys, Std.ExtTreeMap.mem_iff_isSome_getElem?,
    Option.isSome_iff_exists]

theorem mem_edges {g : Graph} {e : Edge} :
    e ∈ g.edges ↔ g.weight? e.source e.target = some e.weight := by
  obtain ⟨u, v, weight⟩ := e
  unfold edges weight? targets
  simp only [List.mem_flatMap, List.mem_map, Prod.exists,
    Std.ExtTreeMap.mem_toList_iff_getElem?_eq_some]
  constructor
  · rintro ⟨source, row, hrow, target, w, hw, heq⟩
    cases heq
    rw [hrow]
    exact hw
  · intro h
    cases hrow : g.outgoing[u]? with
    | none =>
      rw [hrow] at h
      nomatch h
    | some row =>
      rw [hrow] at h
      exact ⟨u, row, hrow, v, weight, h, rfl⟩

/-! ## Nodes without edges -/

theorem coherent_empty : Coherent {} where
  mem_predecessors u v := by
    simp [predecessors, HasEdge, weight?, targets]
  source_mem u v h := by
    simp [HasEdge, weight?, targets] at h
  target_mem u v h := by
    simp [HasEdge, weight?, targets] at h
  irreflexive u h := by
    simp [HasEdge, weight?, targets] at h

theorem mem_nodes_addNode {g : Graph} {node x : NodeId} :
    x ∈ (g.addNode node).nodes ↔ x = node ∨ x ∈ g.nodes := by
  exact mem_insert

theorem weight?_addNode (g : Graph) (node a b : NodeId) :
    (g.addNode node).weight? a b = g.weight? a b :=
  rfl

theorem Coherent.addNode {g : Graph} (h : g.Coherent) (node : NodeId) :
    (g.addNode node).Coherent where
  mem_predecessors := h.mem_predecessors
  source_mem u v he := mem_nodes_addNode.2 (.inr (h.source_mem u v he))
  target_mem u v he := mem_nodes_addNode.2 (.inr (h.target_mem u v he))
  irreflexive := h.irreflexive

/-- A graph of nodes alone. -/
theorem foldl_addNode (nodes : List NodeId) {g : Graph} (h : g.Coherent) :
    (nodes.foldl addNode g).Coherent
      ∧ (∀ u v, (nodes.foldl addNode g).weight? u v = g.weight? u v)
      ∧ ∀ x, x ∈ (nodes.foldl addNode g).nodes ↔ x ∈ nodes ∨ x ∈ g.nodes := by
  induction nodes generalizing g with
  | nil => exact ⟨h, fun _ _ => rfl, by simp⟩
  | cons node rest ih =>
    obtain ⟨hcoherent, hweight, hnodes⟩ := ih (h.addNode node)
    refine ⟨hcoherent, fun u v => hweight u v, fun x => ?_⟩
    rw [List.foldl_cons, hnodes, mem_nodes_addNode, List.mem_cons]
    exact or_left_comm.trans or_assoc.symm

theorem coherent_singleton (node : NodeId) : (singleton node).Coherent where
  mem_predecessors u v := by
    simp [singleton, predecessors, HasEdge, weight?, targets]
  source_mem u v h := by
    simp [singleton, HasEdge, weight?, targets] at h
  target_mem u v h := by
    simp [singleton, HasEdge, weight?, targets] at h
  irreflexive u h := by
    simp [singleton, HasEdge, weight?, targets] at h

/-! ## Edges -/

section AddEdge

variable {g : Graph} {u v : NodeId} {weight : Weight}

theorem addEdge_self : g.addEdge u u weight = g := if_pos rfl

theorem weight?_addEdge (hne : u ≠ v) (a b : NodeId) :
    (g.addEdge u v weight).weight? a b =
      if a = u ∧ b = v then some weight else g.weight? a b := by
  unfold addEdge weight?
  rw [if_neg hne]
  show ((g.outgoing.insert u ((g.targets u).insert v weight))[a]?.getD ∅)[b]? = _
  rw [Std.ExtTreeMap.getElem?_insert]
  by_cases ha : u = a
  · subst ha
    rw [if_pos Std.ReflCmp.compare_self, Option.getD_some, Std.ExtTreeMap.getElem?_insert]
    by_cases hb : v = b
    · simp [hb]
    · simp [hb, Ne.symm hb]
  · rw [if_neg (by simpa using ha), if_neg fun h => ha h.1.symm]
    rfl

theorem hasEdge_addEdge (hne : u ≠ v) {a b : NodeId} :
    (g.addEdge u v weight).HasEdge a b ↔ a = u ∧ b = v ∨ g.HasEdge a b := by
  unfold HasEdge
  rw [weight?_addEdge hne]
  split
  · rename_i h
    simp [h]
  · rename_i h
    simp [h]

theorem mem_nodes_addEdge (hne : u ≠ v) {x : NodeId} :
    x ∈ (g.addEdge u v weight).nodes ↔ x = v ∨ x = u ∨ x ∈ g.nodes := by
  unfold addEdge
  rw [if_neg hne]
  show x ∈ (g.nodes.insert u).insert v ↔ _
  rw [mem_insert, mem_insert]

theorem mem_predecessors_addEdge (hne : u ≠ v) {a b : NodeId} :
    a ∈ (g.addEdge u v weight).predecessors b ↔ a = u ∧ b = v ∨ a ∈ g.predecessors b := by
  unfold addEdge
  rw [if_neg hne]
  show a ∈ (g.incoming.insert v ((g.predecessors v).insert u))[b]?.getD ∅ ↔ _
  rw [Std.ExtTreeMap.getElem?_insert]
  by_cases hb : v = b
  · subst hb
    rw [if_pos Std.ReflCmp.compare_self, Option.getD_some, mem_insert]
    simp
  · rw [if_neg (by simpa using hb)]
    simp [Ne.symm hb, predecessors]

theorem Coherent.addEdge (h : g.Coherent) (u v : NodeId) (weight : Weight) :
    (g.addEdge u v weight).Coherent := by
  by_cases hne : u = v
  · rw [hne, addEdge_self]
    exact h
  refine ⟨?_, ?_, ?_, ?_⟩
  · intro a b
    rw [mem_predecessors_addEdge hne, hasEdge_addEdge hne, h.mem_predecessors]
  · intro a b he
    rw [mem_nodes_addEdge hne]
    rcases (hasEdge_addEdge hne).1 he with ⟨rfl, -⟩ | he
    · exact .inr (.inl rfl)
    · exact .inr (.inr (h.source_mem a b he))
  · intro a b he
    rw [mem_nodes_addEdge hne]
    rcases (hasEdge_addEdge hne).1 he with ⟨-, rfl⟩ | he
    · exact .inl rfl
    · exact .inr (.inr (h.target_mem a b he))
  · intro a he
    rcases (hasEdge_addEdge hne).1 he with ⟨rfl, rfl⟩ | he
    · exact hne rfl
    · exact h.irreflexive a he

end AddEdge

theorem Coherent.connect {g : Graph} (h : g.Coherent) (u v : NodeId) (weight : Weight) :
    (g.connect u v weight).Coherent :=
  (h.addEdge u v weight).addEdge v u weight

theorem hasEdge_connect {g : Graph} {u v : NodeId} {weight : Weight} {a b : NodeId} :
    (g.connect u v weight).HasEdge a b ↔
      a ≠ b ∧ (a = u ∧ b = v ∨ b = u ∧ a = v) ∨ g.HasEdge a b := by
  unfold connect
  by_cases hne : u = v
  · subst hne
    rw [addEdge_self, addEdge_self]
    refine ⟨.inr, fun h => h.resolve_left ?_⟩
    rintro ⟨hab, ⟨rfl, rfl⟩ | ⟨rfl, rfl⟩⟩
    · exact hab rfl
    · exact hab rfl
  · rw [hasEdge_addEdge (Ne.symm hne), hasEdge_addEdge hne]
    constructor
    · rintro (⟨rfl, rfl⟩ | ⟨rfl, rfl⟩ | he)
      · exact .inl ⟨Ne.symm hne, .inr ⟨rfl, rfl⟩⟩
      · exact .inl ⟨hne, .inl ⟨rfl, rfl⟩⟩
      · exact .inr he
    · rintro (⟨-, ⟨rfl, rfl⟩ | ⟨rfl, rfl⟩⟩ | he)
      · exact .inr (.inl ⟨rfl, rfl⟩)
      · exact .inl ⟨rfl, rfl⟩
      · exact .inr (.inr he)

theorem mem_nodes_connect {g : Graph} {u v x : NodeId} {weight : Weight} (hx : x ∈ g.nodes) :
    x ∈ (g.connect u v weight).nodes := by
  unfold connect
  by_cases hne : u = v
  · subst hne
    rw [addEdge_self, addEdge_self]
    exact hx
  · rw [mem_nodes_addEdge (Ne.symm hne), mem_nodes_addEdge hne]
    exact .inr (.inr (.inr (.inr hx)))

/-! ## Removing a node -/

section RemoveNode

variable {g : Graph} {node : NodeId}

theorem removeNode_of_not_mem (hnode : node ∉ g.nodes) : g.removeNode node = g := by
  have hcontains : g.contains node = false := contains_eq_false.2 hnode
  unfold removeNode takeNode
  rw [hcontains, if_neg Bool.false_ne_true]

theorem mem_nodes_removeNode {x : NodeId} :
    x ∈ (g.removeNode node).nodes ↔ x ≠ node ∧ x ∈ g.nodes := by
  unfold removeNode takeNode
  split
  · exact mem_erase
  · rename_i hout
    constructor
    · intro hx
      refine ⟨?_, hx⟩
      rintro rfl
      exact hout (Std.ExtTreeSet.contains_iff_mem.2 hx)
    · exact And.right

/-- The sources of a node that is removed are found in its row as it was, since it is not a target of
its own. -/
theorem getElem?_incoming_foldl (h : g.Coherent) :
    ((g.targets node).keys.foldl
        (fun incoming target => incoming.modify target (·.erase node)) g.incoming)[node]? =
      g.incoming[node]? := by
  have hself : node ∉ (g.targets node).keys := by
    intro hmem
    have hloop : node ∈ g.successors node := mem_ofList.2 hmem
    exact h.irreflexive node (mem_successors.1 hloop)
  rw [getElem?_foldl_modify fun _ _ => erase_erase, if_neg hself]

/-- To take a node out of the rows in which its own row tells that it is leaves it in no row. -/
theorem outgoing_removeNode (h : g.Coherent) (hnode : node ∈ g.nodes) :
    (g.removeNode node).outgoing = (g.outgoing.erase node).map fun _ row => row.erase node := by
  have hcontains : g.contains node = true := Std.ExtTreeSet.contains_iff_mem.2 hnode
  unfold removeNode takeNode
  rw [if_pos hcontains]
  dsimp only
  rw [getElem?_incoming_foldl h]
  refine Std.ExtTreeMap.ext_getElem? fun u => ?_
  rw [getElem?_foldl_modify fun _ _ => erase_erase_map, Std.ExtTreeMap.getElem?_map,
    Std.ExtTreeMap.getElem?_erase]
  by_cases hu : node = u
  · subst hu
    simp
  rw [if_neg (mt Std.LawfulEqOrd.eq_of_compare hu)]
  split
  · rfl
  · rename_i hother
    rw [Std.ExtTreeSet.mem_toList] at hother
    cases hrow : g.outgoing[u]? with
    | none => rfl
    | some row =>
      have hnone : row[node]? = none := by
        by_contra hsome
        obtain ⟨weight, hw⟩ := Option.ne_none_iff_exists'.1 hsome
        refine hother ((h.mem_predecessors u node).2 ⟨weight, ?_⟩)
        rw [weight?, targets, hrow]
        exact hw
      exact congrArg some (erase_of_getElem?_eq_none hnone).symm

theorem incoming_removeNode (h : g.Coherent) (hnode : node ∈ g.nodes) :
    (g.removeNode node).incoming =
      (g.incoming.erase node).map fun _ sources => sources.erase node := by
  have hcontains : g.contains node = true := Std.ExtTreeSet.contains_iff_mem.2 hnode
  unfold removeNode takeNode
  rw [if_pos hcontains]
  dsimp only
  refine Std.ExtTreeMap.ext_getElem? fun v => ?_
  rw [Std.ExtTreeMap.getElem?_erase, Std.ExtTreeMap.getElem?_map, Std.ExtTreeMap.getElem?_erase,
    getElem?_foldl_modify fun _ _ => erase_erase]
  split
  · rfl
  split
  · rfl
  · rename_i hother
    cases hrow : g.incoming[v]? with
    | none => rfl
    | some sources =>
      have hout : node ∉ sources := by
        intro hmem
        refine hother (mem_ofList.1 (mem_successors.2 ((h.mem_predecessors node v).1 ?_)))
        rw [predecessors, hrow]
        exact hmem
      exact congrArg some (erase_of_not_mem hout).symm

theorem weight?_removeNode (h : g.Coherent) (a b : NodeId) :
    (g.removeNode node).weight? a b =
      if a = node ∨ b = node then none else g.weight? a b := by
  by_cases hnode : node ∈ g.nodes
  · unfold weight? targets
    rw [outgoing_removeNode h hnode, Std.ExtTreeMap.getElem?_map, Std.ExtTreeMap.getElem?_erase]
    by_cases ha : node = a
    · subst ha
      simp
    · rw [if_neg (by simpa using ha)]
      cases g.outgoing[a]? with
      | none => simp
      | some row =>
        show (row.erase node)[b]? = if a = node ∨ b = node then none else row[b]?
        rw [Std.ExtTreeMap.getElem?_erase]
        by_cases hb : node = b
        · simp [hb]
        · simp [hb, Ne.symm hb, Ne.symm ha]
  · rw [removeNode_of_not_mem hnode]
    split
    · rename_i hend
      by_contra hsome
      have hedge : g.HasEdge a b := Option.ne_none_iff_exists'.1 hsome
      rcases hend with rfl | rfl
      · exact hnode (h.source_mem a b hedge)
      · exact hnode (h.target_mem a b hedge)
    · rfl

theorem hasEdge_removeNode (h : g.Coherent) {a b : NodeId} :
    (g.removeNode node).HasEdge a b ↔ a ≠ node ∧ b ≠ node ∧ g.HasEdge a b := by
  unfold HasEdge
  rw [weight?_removeNode h]
  split
  · rename_i hend
    constructor
    · rintro ⟨w, hw⟩
      nomatch hw
    · rintro ⟨ha, hb, -⟩
      exact absurd hend (by simp [ha, hb])
  · rename_i hend
    rw [not_or] at hend
    exact ⟨fun h => ⟨hend.1, hend.2, h⟩, fun h => h.2.2⟩

theorem mem_predecessors_removeNode (h : g.Coherent) {a b : NodeId} :
    a ∈ (g.removeNode node).predecessors b ↔ a ≠ node ∧ b ≠ node ∧ a ∈ g.predecessors b := by
  by_cases hnode : node ∈ g.nodes
  · unfold predecessors
    rw [incoming_removeNode h hnode, Std.ExtTreeMap.getElem?_map, Std.ExtTreeMap.getElem?_erase]
    by_cases hb : node = b
    · subst hb
      simp
    · rw [if_neg (by simpa using hb)]
      cases g.incoming[b]? with
      | none => simp
      | some sources =>
        show a ∈ sources.erase node ↔ _ ∧ _ ∧ a ∈ sources
        rw [mem_erase]
        simp [Ne.symm hb]
  · rw [removeNode_of_not_mem hnode]
    refine ⟨fun ha => ?_, fun ha => ha.2.2⟩
    have hedge := (h.mem_predecessors a b).1 ha
    refine ⟨?_, ?_, ha⟩
    · rintro rfl
      exact hnode (h.source_mem a b hedge)
    · rintro rfl
      exact hnode (h.target_mem a b hedge)

theorem Coherent.removeNode (h : g.Coherent) (node : NodeId) : (g.removeNode node).Coherent where
  mem_predecessors a b := by
    rw [mem_predecessors_removeNode h, hasEdge_removeNode h, h.mem_predecessors]
  source_mem a b he := by
    obtain ⟨ha, -, he⟩ := (hasEdge_removeNode h).1 he
    exact mem_nodes_removeNode.2 ⟨ha, h.source_mem a b he⟩
  target_mem a b he := by
    obtain ⟨-, hb, he⟩ := (hasEdge_removeNode h).1 he
    exact mem_nodes_removeNode.2 ⟨hb, h.target_mem a b he⟩
  irreflexive a he := h.irreflexive a ((hasEdge_removeNode h).1 he).2.2

end RemoveNode

/-! ## Removing an edge -/

section RemoveEdge

variable {g : Graph} {u v : NodeId}

theorem weight?_removeEdge (a b : NodeId) :
    (g.removeEdge u v).2.weight? a b = if a = u ∧ b = v then none else g.weight? a b := by
  unfold removeEdge
  cases hweight : g.weight? u v with
  | none =>
    show g.weight? a b = _
    by_cases hends : a = u ∧ b = v
    · rw [if_pos hends, hends.1, hends.2, hweight]
    · rw [if_neg hends]
  | some _ =>
    unfold weight? targets
    show ((g.outgoing.modify u fun row => row.erase v)[a]?.getD ∅)[b]? = _
    rw [Std.ExtTreeMap.getElem?_modify]
    by_cases ha : u = a
    · subst ha
      rw [if_pos Std.ReflCmp.compare_self]
      cases g.outgoing[u]? with
      | none => simp
      | some row =>
        show (row.erase v)[b]? = if u = u ∧ b = v then none else row[b]?
        rw [Std.ExtTreeMap.getElem?_erase]
        by_cases hb : v = b
        · simp [hb]
        · simp [hb, Ne.symm hb]
    · rw [if_neg (by simpa using ha), if_neg fun h => ha h.1.symm]

theorem hasEdge_removeEdge {a b : NodeId} :
    (g.removeEdge u v).2.HasEdge a b ↔ ¬(a = u ∧ b = v) ∧ g.HasEdge a b := by
  unfold HasEdge
  rw [weight?_removeEdge]
  split
  · rename_i hends
    simp [hends]
  · rename_i hends
    simp [hends]

theorem mem_predecessors_removeEdge (h : g.Coherent) {a b : NodeId} :
    a ∈ (g.removeEdge u v).2.predecessors b ↔ ¬(a = u ∧ b = v) ∧ a ∈ g.predecessors b := by
  unfold removeEdge
  cases hweight : g.weight? u v with
  | none =>
    refine ⟨fun ha => ⟨?_, ha⟩, And.right⟩
    rintro ⟨rfl, rfl⟩
    obtain ⟨weight, hw⟩ := (h.mem_predecessors _ _).1 ha
    rw [hweight] at hw
    nomatch hw
  | some _ =>
    unfold predecessors
    show a ∈ (g.incoming.modify v fun sources => sources.erase u)[b]?.getD ∅ ↔ _
    rw [Std.ExtTreeMap.getElem?_modify]
    by_cases hb : v = b
    · subst hb
      rw [if_pos Std.ReflCmp.compare_self]
      cases g.incoming[v]? with
      | none => simp
      | some sources =>
        show a ∈ sources.erase u ↔ ¬(a = u ∧ v = v) ∧ a ∈ sources
        rw [mem_erase]
        simp
    · rw [if_neg (by simpa using hb)]
      simp [Ne.symm hb]

theorem nodes_removeEdge (g : Graph) (u v : NodeId) : (g.removeEdge u v).2.nodes = g.nodes := by
  unfold removeEdge
  split <;> rfl

theorem Coherent.removeEdge (h : g.Coherent) (u v : NodeId) : (g.removeEdge u v).2.Coherent where
  mem_predecessors a b := by
    rw [mem_predecessors_removeEdge h, hasEdge_removeEdge, h.mem_predecessors]
  source_mem a b he := by
    rw [nodes_removeEdge]
    exact h.source_mem a b (hasEdge_removeEdge.1 he).2
  target_mem a b he := by
    rw [nodes_removeEdge]
    exact h.target_mem a b (hasEdge_removeEdge.1 he).2
  irreflexive a he := h.irreflexive a (hasEdge_removeEdge.1 he).2

end RemoveEdge

/-! ## Weights alone -/

theorem weight?_withUnitWeights (g : Graph) (a b : NodeId) :
    g.withUnitWeights.weight? a b = (g.weight? a b).map fun _ => unitWeight := by
  unfold weight? targets
  show ((g.outgoing.map fun _ row => row.map fun _ _ => unitWeight)[a]?.getD ∅)[b]? = _
  rw [Std.ExtTreeMap.getElem?_map]
  cases g.outgoing[a]? with
  | none => simp
  | some row =>
    show (row.map fun _ _ => unitWeight)[b]? = row[b]?.map fun _ => unitWeight
    rw [Std.ExtTreeMap.getElem?_map]

theorem hasEdge_withUnitWeights {g : Graph} {a b : NodeId} :
    g.withUnitWeights.HasEdge a b ↔ g.HasEdge a b := by
  unfold HasEdge
  rw [weight?_withUnitWeights]
  cases g.weight? a b <;> simp

theorem Coherent.withUnitWeights {g : Graph} (h : g.Coherent) : g.withUnitWeights.Coherent where
  mem_predecessors u v := (h.mem_predecessors u v).trans hasEdge_withUnitWeights.symm
  source_mem u v he := h.source_mem u v (hasEdge_withUnitWeights.1 he)
  target_mem u v he := h.target_mem u v (hasEdge_withUnitWeights.1 he)
  irreflexive u he := h.irreflexive u (hasEdge_withUnitWeights.1 he)

/-! ## Parts of a graph -/

/-- Adding edges of a graph gives each of them the weight it has there. -/
theorem weight?_foldl_addEdge {g : Graph} (h : g.Coherent) (edges : List Edge)
    (hedges : ∀ e ∈ edges, e ∈ g.edges) (part : Graph) (a b : NodeId) :
    (edges.foldl (fun part e => part.addEdge e.source e.target e.weight) part).weight? a b =
      if ∃ e ∈ edges, e.source = a ∧ e.target = b then g.weight? a b else part.weight? a b := by
  induction edges generalizing part with
  | nil => simp
  | cons e rest ih =>
    have hweight := mem_edges.1 (hedges e List.mem_cons_self)
    have hne : e.source ≠ e.target := fun heq => h.irreflexive e.target ⟨e.weight, heq ▸ hweight⟩
    rw [List.foldl_cons, ih (fun e' he' => hedges e' (List.mem_cons_of_mem e he')),
      weight?_addEdge hne]
    simp only [List.mem_cons, exists_eq_or_imp]
    by_cases hfirst : e.source = a ∧ e.target = b
    · obtain ⟨rfl, rfl⟩ := hfirst
      simp [hweight]
    · have hother : ¬(a = e.source ∧ b = e.target) := fun h => hfirst ⟨h.1.symm, h.2.symm⟩
      simp [hfirst, hother]

theorem foldl_addEdge (edges : List Edge) {g : Graph} (h : g.Coherent) :
    (edges.foldl (fun part e => part.addEdge e.source e.target e.weight) g).Coherent
      ∧ ∀ x, (∀ e ∈ edges, e.source ∈ g.nodes ∧ e.target ∈ g.nodes) →
        (x ∈ (edges.foldl (fun part e => part.addEdge e.source e.target e.weight) g).nodes ↔
          x ∈ g.nodes) := by
  induction edges generalizing g with
  | nil => exact ⟨h, fun _ _ => Iff.rfl⟩
  | cons e rest ih =>
    obtain ⟨hcoherent, hnodes⟩ := ih (h.addEdge e.source e.target e.weight)
    refine ⟨hcoherent, fun x hends => ?_⟩
    have hfirst := hends e List.mem_cons_self
    have hsame : ∀ y, y ∈ (g.addEdge e.source e.target e.weight).nodes ↔ y ∈ g.nodes := by
      intro y
      by_cases hne : e.source = e.target
      · rw [hne, addEdge_self]
      · rw [mem_nodes_addEdge hne]
        constructor
        · rintro (rfl | rfl | hy)
          · exact hfirst.2
          · exact hfirst.1
          · exact hy
        · exact fun hy => .inr (.inr hy)
    rw [List.foldl_cons, hnodes x, hsame]
    intro e' he'
    rw [hsame, hsame]
    exact hends e' (List.mem_cons_of_mem e he')

theorem coherent_restrictedTo (g : Graph) (keep : NodeSet) : (g.restrictedTo keep).Coherent :=
  (foldl_addEdge _ (foldl_addNode _ coherent_empty).1).1

section RestrictedTo

variable {g : Graph} (h : g.Coherent) (keep : NodeSet)

include h

theorem mem_nodes_restrictedTo {x : NodeId} :
    x ∈ (g.restrictedTo keep).nodes ↔ x ∈ g.nodes ∧ x ∈ keep := by
  have hnodes : ∀ y, y ∈ ((g.nodes.filter keep.contains).toList.foldl addNode {}).nodes ↔
      y ∈ g.nodes ∧ y ∈ keep := by
    intro y
    rw [(foldl_addNode _ coherent_empty).2.2, Std.ExtTreeSet.mem_toList, mem_filter,
      Std.ExtTreeSet.contains_iff_mem]
    exact or_iff_left Std.ExtTreeSet.not_mem_empty
  refine ((foldl_addEdge _ (foldl_addNode _ coherent_empty).1).2 x ?_).trans (hnodes x)
  intro e he
  simp only [List.mem_filter, mem_edges, Bool.and_eq_true, Std.ExtTreeSet.contains_iff_mem] at he
  obtain ⟨hweight, hsource, htarget⟩ := he
  rw [hnodes, hnodes]
  exact ⟨⟨h.source_mem _ _ ⟨_, hweight⟩, hsource⟩, h.target_mem _ _ ⟨_, hweight⟩, htarget⟩

theorem weight?_restrictedTo (a b : NodeId) :
    (g.restrictedTo keep).weight? a b =
      if a ∈ keep ∧ b ∈ keep then g.weight? a b else none := by
  have hkept : ∀ e : Edge,
      e ∈ g.edges.filter (fun e => keep.contains e.source && keep.contains e.target) ↔
        g.weight? e.source e.target = some e.weight ∧ e.source ∈ keep ∧ e.target ∈ keep := by
    intro e
    rw [List.mem_filter, mem_edges, Bool.and_eq_true, Std.ExtTreeSet.contains_iff_mem,
      Std.ExtTreeSet.contains_iff_mem]
  have hempty : weight? {} a b = none := by simp [weight?, targets]
  unfold restrictedTo ofNodesAndEdges
  rw [weight?_foldl_addEdge h _ fun e he => (List.mem_filter.1 he).1,
    (foldl_addNode _ coherent_empty).2.1, hempty]
  by_cases hkeep : a ∈ keep ∧ b ∈ keep
  · rw [if_pos hkeep]
    split
    · rfl
    · rename_i hnone
      cases hweight : g.weight? a b with
      | none => rfl
      | some w => exact absurd ⟨⟨a, b, w⟩, (hkept _).2 ⟨hweight, hkeep⟩, rfl, rfl⟩ hnone
  · rw [if_neg hkeep, if_neg]
    rintro ⟨e, he, rfl, rfl⟩
    exact hkeep ((hkept e).1 he).2

end RestrictedTo

end Graph

end Meshcast
