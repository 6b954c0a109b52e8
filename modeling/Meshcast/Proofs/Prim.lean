import Meshcast.Graph.Prim
import Meshcast.Overlay.Basic
import Meshcast.Proofs.SpanningTree

/-!
# Meshcast — the trees that overlays use

Overlays use three kinds of trees: a single node, a star, and a minimum spanning tree of a graph.
All of them grew.

* **`SpanningTree.Built`** — the trees that are ever built.
* **`Graph.Frontier.Fits`** — what the search for a minimum spanning tree keeps: a node of the
  frontier knows a way into the tree or none at all, and it is not in the tree, save for the root
  before the first step.
* **`Built.grown`** — every tree that is built grew from its root.
-/

namespace Meshcast

namespace SpanningTree

/-- The trees that are ever built. -/
inductive Built : SpanningTree → Prop
  | singleton (root : NodeId) : Built (.singleton root)
  | star (root : NodeId) (nodes : NodeSet) : Built (.star root nodes)
  | minimum {g : Graph} {root : NodeId} {t : SpanningTree}
      (h : g.minimumSpanningTree root = .ok t) : Built t

/-! ## Stars -/

theorem grown_star (root : NodeId) (nodes : NodeSet) : Grown (star root nodes) := by
  have hattach : ∀ (list : List NodeId) (t : SpanningTree), Grown t → root ∈ t.nodes →
      list.Nodup → (∀ node ∈ list, node ∉ t.nodes) →
        Grown (list.foldl (fun t node => t.attach node root unitWeight) t) := by
    intro list
    induction list with
    | nil => exact fun t grown _ _ _ => grown
    | cons first rest ih =>
      intro t grown hroot hnodup hnew
      rw [List.nodup_cons] at hnodup
      rw [List.foldl_cons]
      apply ih
      · exact grown.attach unitWeight (hnew first List.mem_cons_self) hroot
      · exact (mem_nodes_attach unitWeight hroot).2 (.inr hroot)
      · exact hnodup.2
      · intro node hnode
        rw [mem_nodes_attach unitWeight hroot, not_or]
        refine ⟨?_, hnew node (List.mem_cons_of_mem _ hnode)⟩
        rintro rfl
        exact hnodup.1 hnode
  unfold star
  rw [Std.ExtTreeSet.foldl_eq_foldl_toList]
  refine hattach _ _ (.singleton root) (mem_nodes_singleton.2 rfl) ?_ ?_
  · exact Std.ExtTreeSet.distinct_toList.imp fun h heq => h (Std.compare_eq_iff_eq.2 heq)
  · intro node hnode
    rw [mem_nodes_singleton]
    rintro rfl
    rw [Std.ExtTreeSet.mem_toList, Std.ExtTreeSet.mem_erase] at hnode
    exact hnode.1 Std.ReflCmp.compare_self

end SpanningTree

/-! ## Minimum spanning trees -/

namespace Graph

/-- Every node of the frontier knows a node of the tree and is not in the tree; or it knows none,
and then it is the root before the first step or out of reach so far. -/
def Frontier.Fits (frontier : Frontier) (t : SpanningTree) : Prop :=
  ∀ (node : NodeId) (known : Nearness), frontier[node]? = some known →
    match known.parent with
    | some parent => parent ∈ t.nodes ∧ node ∉ t.nodes
    | none => node ∈ t.nodes ∧ known.weight = 0 ∨ node ∉ t.nodes ∧ known.weight = maxWeight

theorem fits_startingFrontier (g : Graph) (root : NodeId) :
    (g.startingFrontier root).Fits (.singleton root) := by
  have hunknown : ∀ (list : List NodeId) (frontier : Frontier) (node : NodeId) (known : Nearness),
      (∀ known, frontier[node]? = some known → known = ⟨maxWeight, none⟩) →
      (list.foldl (fun frontier node => frontier.insert node ⟨maxWeight, none⟩) frontier)[node]?
        = some known → known = ⟨maxWeight, none⟩ := by
    intro list
    induction list with
    | nil => exact fun frontier node known h => h known
    | cons first rest ih =>
      intro frontier node known h hknown
      refine ih _ node known ?_ hknown
      intro known hknown
      rw [Std.ExtTreeMap.getElem?_insert] at hknown
      split at hknown
      · exact (Option.some.inj hknown).symm
      · exact h known hknown
  intro node known hknown
  unfold startingFrontier at hknown
  rw [Std.ExtTreeMap.getElem?_insert, Std.ExtTreeSet.foldl_eq_foldl_toList] at hknown
  simp only [Std.compare_eq_iff_eq] at hknown
  split at hknown
  · rename_i heq
    subst heq
    cases hknown
    exact .inl ⟨SpanningTree.mem_nodes_singleton.2 rfl, rfl⟩
  · rename_i hne
    rw [hunknown _ ∅ node known (by simp) hknown]
    refine .inr ⟨?_, rfl⟩
    rw [SpanningTree.mem_nodes_singleton]
    exact Ne.symm hne

/-- Which of a node and the nearest one so far is nearer. -/
def nearer (best : Option (NodeId × Nearness)) (entry : NodeId × Nearness) :
    Option (NodeId × Nearness) :=
  match best with
  | none => some entry
  | some b => if entry.2.weight < b.2.weight then some entry else some b

theorem nearest?_eq (frontier : Frontier) :
    nearest? frontier = frontier.toList.foldl nearer none :=
  rfl

theorem nearest?_eq_some {frontier : Frontier} {node : NodeId} {known : Nearness}
    (h : nearest? frontier = some (node, known)) : frontier[node]? = some known := by
  have hmem : ∀ (list : List (NodeId × Nearness)) (best : Option (NodeId × Nearness))
      (found : NodeId × Nearness),
      list.foldl nearer best = some found → found ∈ list ∨ best = some found := by
    intro list
    induction list with
    | nil => exact fun best found h => .inr h
    | cons first rest ih =>
      intro best found h
      rcases ih _ found h with hrest | hbest
      · exact .inl (List.mem_cons_of_mem _ hrest)
      · unfold nearer at hbest
        split at hbest
        · cases hbest
          exact .inl List.mem_cons_self
        · split at hbest
          · cases hbest
            exact .inl List.mem_cons_self
          · exact .inr hbest
  rw [← Std.ExtTreeMap.mem_toList_iff_getElem?_eq_some]
  rw [nearest?_eq] at h
  exact (hmem _ none _ h).resolve_right nofun

/-- An edge to the tree is taken note of only if it is lighter than what is known. -/
theorem nearerOver_cases (g : Graph) (node next : NodeId) (known : Nearness) :
    g.nearerOver node next known = known
      ∨ ∃ weight, g.undirectedWeight? node next = some weight ∧ weight < known.weight
        ∧ g.nearerOver node next known = ⟨weight, some node⟩ := by
  unfold nearerOver
  cases g.undirectedWeight? node next with
  | none => exact .inl rfl
  | some weight =>
    dsimp only
    split
    · exact .inr ⟨weight, rfl, ‹_›, rfl⟩
    · exact .inl rfl

/-- What is known is as near as before, and as near as the edge is light. -/
theorem nearerOver_le (g : Graph) (node next : NodeId) (known : Nearness) :
    (g.nearerOver node next known).weight ≤ known.weight
      ∧ ∀ w, g.undirectedWeight? node next = some w →
        (g.nearerOver node next known).weight ≤ w := by
  unfold nearerOver
  cases g.undirectedWeight? node next with
  | none => exact ⟨Nat.le_refl _, nofun⟩
  | some weight =>
    simp only [Option.some.injEq, forall_eq']
    split
    · exact ⟨Nat.le_of_lt ‹_›, Nat.le_refl _⟩
    · exact ⟨Nat.le_refl _, Nat.le_of_not_lt ‹_›⟩

theorem nearerOver_nearerOver (g : Graph) (node next : NodeId) (known : Nearness) :
    g.nearerOver node next (g.nearerOver node next known) = g.nearerOver node next known := by
  rcases g.nearerOver_cases node next (g.nearerOver node next known) with hsame | ⟨w, hw, hless, -⟩
  · exact hsame
  · rcases g.nearerOver_cases node next known with hsame | ⟨w', hw', -, hnearer⟩
    · rw [hsame, hsame]
    · -- the edge is not lighter than itself
      rw [hnearer] at hless
      obtain rfl := Option.some.inj (hw.symm.trans hw')
      exact absurd hless (Nat.lt_irrefl w)

theorem getElem?_relax (g : Graph) {node x : NodeId} {frontier : Frontier} :
    (g.relax node frontier)[x]? =
      if x ∈ g.neighbors node then frontier[x]?.map (g.nearerOver node x) else frontier[x]? := by
  unfold relax
  rw [Std.ExtTreeSet.foldl_eq_foldl_toList, getElem?_foldl_modify (g.nearerOver_nearerOver node)]
  simp only [Std.ExtTreeSet.mem_toList]

/-- What is known of a node afterwards is what was known of it, or the edge to it is lighter. -/
theorem exists_of_getElem?_relax {g : Graph} {node x : NodeId} {frontier : Frontier}
    {known : Nearness} (h : (g.relax node frontier)[x]? = some known) :
    ∃ old, frontier[x]? = some old ∧ (known = old
      ∨ ∃ weight, g.undirectedWeight? node x = some weight ∧ weight < old.weight
        ∧ known = ⟨weight, some node⟩) := by
  rw [getElem?_relax] at h
  split at h
  · obtain ⟨old, hold, rfl⟩ := Option.map_eq_some_iff.1 h
    exact ⟨old, hold, g.nearerOver_cases node x old⟩
  · exact ⟨known, h, .inl rfl⟩

/-- Once a node joined the tree, the rest of the frontier fits the new tree. -/
theorem fits_relax {g : Graph} {frontier : Frontier} {t t' : SpanningTree} {node : NodeId}
    (h : frontier.Fits t) (hsubset : ∀ x, x ∈ t'.nodes ↔ x = node ∨ x ∈ t.nodes) :
    (g.relax node (frontier.erase node)).Fits t' := by
  intro next known hknown
  obtain ⟨old, hold, hknown⟩ := exists_of_getElem?_relax hknown
  rw [Std.ExtTreeMap.getElem?_erase] at hold
  have hne : node ≠ next := by
    rintro rfl
    rw [if_pos Std.ReflCmp.compare_self] at hold
    nomatch hold
  rw [if_neg (mt Std.compare_eq_iff_eq.1 hne)] at hold
  have hfits := h next old hold
  have hsame : next ∈ t'.nodes ↔ next ∈ t.nodes := by
    rw [hsubset]
    exact or_iff_right (Ne.symm hne)
  -- what was known stays right
  have hkept : match old.parent with
      | some parent => parent ∈ t'.nodes ∧ next ∉ t'.nodes
      | none => next ∈ t'.nodes ∧ old.weight = 0 ∨ next ∉ t'.nodes ∧ old.weight = maxWeight := by
    split at hfits
    · rw [hsame, hsubset]
      exact ⟨.inr hfits.1, hfits.2⟩
    · rw [hsame]
      exact hfits
  rcases hknown with rfl | ⟨weight, -, hless, rfl⟩
  · exact hkept
  · dsimp only
    rw [hsubset, hsame]
    refine ⟨.inl rfl, ?_⟩
    -- nothing is nearer than the root
    split at hfits
    · exact hfits.2
    · rcases hfits with ⟨-, hzero⟩ | ⟨hout, -⟩
      · rw [hzero] at hless
        exact absurd hless (Nat.not_lt_zero _)
      · exact hout

/-- The search grows the tree it starts with. -/
theorem grown_growTree (g : Graph) (fuel : Nat) {t result : SpanningTree} {frontier : Frontier}
    (grown : t.Grown) (hfits : frontier.Fits t) (h : g.growTree fuel t frontier = .ok result) :
    result.Grown := by
  induction fuel generalizing t frontier with
  | zero =>
    cases h
    exact grown
  | succ fuel ih =>
    unfold growTree at h
    split at h
    · cases h
      exact grown
    · rename_i node known hnearest
      split at h
      · nomatch h
      · rename_i hreached
        have hnode := hfits node known (nearest?_eq_some hnearest)
        cases hparent : known.parent with
        | some parent =>
          rw [hparent] at hnode h
          refine ih (grown.attach known.weight hnode.2 hnode.1) (fits_relax hfits ?_) h
          exact fun x => SpanningTree.mem_nodes_attach known.weight hnode.1
        | none =>
          rw [hparent] at hnode h
          refine ih grown (fits_relax hfits ?_) h
          intro x
          have hmem : node ∈ t.nodes := by
            rcases hnode with hroot | hout
            · exact hroot.1
            · exact absurd hout.2 hreached
          constructor
          · exact .inr
          · rintro (rfl | hx)
            · exact hmem
            · exact hx

end Graph

theorem SpanningTree.Built.grown {t : SpanningTree} (h : t.Built) : t.Grown := by
  cases h with
  | singleton root => exact .singleton root
  | star root nodes => exact grown_star root nodes
  | @minimum g root t h =>
    unfold Graph.minimumSpanningTree at h
    split at h
    · exact g.grown_growTree _ (.singleton root) (g.fits_startingFrontier root) h
    · nomatch h

theorem Overlay.built_treeOver (self : NodeId) (graph : Graph) : (treeOver self graph).Built := by
  unfold treeOver
  split
  · rename_i tree h
    exact .minimum h
  · exact .star self graph.nodes

end Meshcast
