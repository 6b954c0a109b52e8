import Mathlib.Data.List.Perm.Subperm
import Meshcast.Proofs.TreeGraph

/-!
# Meshcast — the search for a way finds the path

The way between two nodes of a spanning tree is found by a search that starts at one of them and
records of every node from which one it was found. In a tree no node can be found in two ways, so
what the records say is the one path of the graph, and the search gets to every node before it runs
out of fuel.

* **`Traced`** — the way to a node according to the records; **`Traced.traceBack_eq`** — following
  the records back yields it.
* **`Searched`** — what holds of a search at any time; **`Searched.visit`** — a visit keeps it, and
  **`Searched.search`** — so does the whole search, which ends with the target found or with nobody
  left to visit.
* **`Grown.path?_eq_some_iff`** — the way between two nodes is the path of the graph, and there is
  none unless both are in the tree.
-/

namespace Meshcast

namespace SpanningTree

/-! ## Records -/

section Records

variable {previous : Std.ExtTreeMap NodeId NodeId} {origin node : NodeId} {way : List NodeId}

/-- The way from `origin` to a node by which it was found. -/
inductive Traced (previous : Std.ExtTreeMap NodeId NodeId) (origin : NodeId) :
    NodeId → List NodeId → Prop
  | here : Traced previous origin origin [origin]
  | step {node before : NodeId} {way : List NodeId} (hne : node ≠ origin)
      (hprevious : previous[node]? = some before) (h : Traced previous origin before way) :
    Traced previous origin node (way ++ [node])

theorem Traced.length_pos (h : Traced previous origin node way) : 0 < way.length := by
  cases h with
  | here => exact Nat.zero_lt_one
  | step => simp

/-- New records change nothing about the ways that there are. -/
theorem Traced.mono {previous' : Std.ExtTreeMap NodeId NodeId}
    (h : Traced previous origin node way)
    (hkept : ∀ x before : NodeId, previous[x]? = some before → previous'[x]? = some before) :
    Traced previous' origin node way := by
  induction h with
  | here => exact .here
  | step hne hprevious _ ih => exact .step hne (hkept _ _ hprevious) ih

theorem Traced.traceBack_eq (h : Traced previous origin node way) {fuel : Nat}
    (hfuel : way.length ≤ fuel + 1) (rest : List NodeId) :
    traceBack previous origin fuel node rest = some (way ++ rest) := by
  induction h generalizing fuel rest with
  | here =>
    cases fuel with
    | zero => exact if_pos rfl
    | succ fuel => exact if_pos rfl
  | @step node before way hne hprevious h ih =>
    rw [List.length_append, List.length_singleton, Nat.add_le_add_iff_right] at hfuel
    cases fuel with
    | zero => exact absurd h.length_pos (Nat.not_lt_of_le hfuel)
    | succ fuel =>
      unfold traceBack
      rw [if_neg hne, hprevious, Option.bind_some, ih hfuel, List.append_assoc]
      rfl

end Records

/-! ## The search -/

/-- What holds of a search from `origin`: it explores the tree, it has a record of each node that is
found but the origin, and the records trace a path to each of them. -/
structure Searched (t : SpanningTree) (origin : NodeId) (visited queue : List NodeId)
    (previous : Std.ExtTreeMap NodeId NodeId) : Prop
    extends Graph.Explored t.neighbors origin visited queue where
  mem_iff : ∀ x, x ∈ visited ++ queue ↔ x = origin ∨ x ∈ previous
  path : ∀ x ∈ visited ++ queue, ∃ path : t.graph.Path origin x,
    (∀ y ∈ path.1.support, y ∈ visited ++ queue) ∧ Traced previous origin x path.1.support

theorem searched_start (t : SpanningTree) (origin : NodeId) : Searched t origin [] [origin] ∅ where
  toExplored := Graph.explored_start t.neighbors origin
  mem_iff x := by simp
  path x hx := by
    obtain rfl := List.mem_singleton.1 hx
    exact ⟨.nil, fun y hy => hy, .here⟩

variable {t : SpanningTree} {origin node : NodeId} {visited queue found : List NodeId}
  {previous : Std.ExtTreeMap NodeId NodeId}

theorem Searched.visit (hgrown : t.Grown) (h : Searched t origin visited (node :: queue) previous)
    (hnodup : found.Nodup)
    (hfound : ∀ x, x ∈ found ↔ x ∈ t.neighbors node ∧ x ∉ visited ++ node :: queue) :
    Searched t origin (visited ++ [node]) (queue ++ found)
      (found.foldl (fun previous next => previous.insert next node) previous) := by
  have hkept : ∀ x before : NodeId, previous[x]? = some before →
      (found.foldl (fun previous next => previous.insert next node) previous)[x]? = some before := by
    intro x before hx
    rw [getElem?_foldl_insert, if_neg, hx]
    intro hmem
    exact ((hfound x).1 hmem).2 ((h.mem_iff x).2 (.inr (mem_iff_exists_getElem?.2 ⟨before, hx⟩)))
  refine ⟨h.toExplored.visit hnodup hfound, fun x => ?_, fun x hx => ?_⟩
  · rw [Graph.append_visit, List.mem_append, h.mem_iff, mem_foldl_insert, or_assoc,
      or_comm (b := x ∈ found)]
  · rw [Graph.append_visit] at hx ⊢
    rcases List.mem_append.1 hx with hx | hx
    · obtain ⟨path, hsupport, htraced⟩ := h.path x hx
      exact ⟨path, fun y hy => List.mem_append_left _ (hsupport y hy), htraced.mono hkept⟩
    · -- the path to the visited node goes on to the one that is found
      obtain ⟨path, hsupport, htraced⟩ := h.path node (by simp)
      obtain ⟨hneighbor, hnew⟩ := (hfound x).1 hx
      have hadj := hgrown.adj_iff.2 hneighbor
      have hout : x ∉ path.1.support := fun hmem => hnew (hsupport x hmem)
      refine ⟨⟨path.1.concat hadj, path.2.concat hout hadj⟩, fun y hy => ?_, ?_⟩
      · rw [SimpleGraph.Walk.support_concat, List.mem_append, List.mem_singleton] at hy
        rcases hy with hy | rfl
        · exact List.mem_append_left _ (hsupport y hy)
        · exact List.mem_append_right _ hx
      · rw [SimpleGraph.Walk.support_concat]
        refine .step (fun heq => hnew ((h.mem_iff x).2 (.inl heq))) ?_ (htraced.mono hkept)
        rw [getElem?_foldl_insert, if_pos hx]

/-- The fuel lasts until the target has been found or nobody is left to visit. -/
theorem Searched.search (hgrown : t.Grown) (horigin : origin ∈ t.nodes) (target : NodeId)
    (fuel : Nat) (h : Searched t origin visited queue previous)
    (hfuel : t.nodes.size ≤ visited.length + fuel) :
    ∃ visited' queue', Searched t origin visited' queue' (t.search origin target fuel queue previous)
      ∧ (queue' = [] ∨ target ∈ queue') := by
  induction fuel generalizing visited queue previous with
  | zero =>
    have hle := h.length_le hgrown.mem_nodes_of_neighbors (Std.ExtTreeSet.mem_toList.2 horigin)
    rw [Std.ExtTreeSet.length_toList] at hle
    exact ⟨visited, queue, h, .inl (List.length_eq_zero_iff.1 (by omega))⟩
  | succ fuel ih =>
    cases queue with
    | nil => exact ⟨visited, [], h, .inl rfl⟩
    | cons node queue =>
      unfold SpanningTree.search
      split
      · rename_i htarget
        exact ⟨visited, node :: queue, h, .inr (htarget ▸ List.mem_cons_self)⟩
      · refine ih (h.visit hgrown ((nodup_toList _).filter _) fun x => ?_) ?_
        · rw [h.mem_iff, not_or, List.mem_filter, Std.ExtTreeSet.mem_toList, Bool.and_eq_true,
            bne_iff_ne, Bool.not_eq_true', ← Bool.not_eq_true, Std.ExtTreeMap.contains_iff_mem]
        · rw [List.length_append, List.length_singleton]
          omega

/-! ## Ways -/

namespace Grown

variable {u v : NodeId}

/-- The way between two nodes of a tree is a path of its graph. -/
theorem exists_path (h : t.Grown) (hu : u ∈ t.nodes) (hv : v ∈ t.nodes) :
    ∃ path : t.graph.Path u v, t.path? u v = some path.1.support := by
  have hsize : t.nodes.size = t.size := t.size_nodes
  obtain ⟨visited, queue, hend, hstop⟩ :=
    (searched_start t u).search h hu v t.size (hsize ▸ Nat.le_add_left _ _)
  have hfound : v ∈ visited ++ queue := by
    rcases hstop with rfl | hqueue
    · exact List.mem_append_left _ (hend.mem_visited.2 (h.reaches hu hv))
    · exact List.mem_append_right _ hqueue
  obtain ⟨path, -, htraced⟩ := hend.path v hfound
  have hlength : path.1.support.length ≤ t.size := by
    have hnodes : path.1.support ⊆ t.nodes.toList := fun x hx =>
      Std.ExtTreeSet.mem_toList.2 (h.mem_nodes_of_walk path.1 hu hx)
    have hle := (path.2.support_nodup.subperm hnodes).length_le
    rwa [Std.ExtTreeSet.length_toList, hsize] at hle
  refine ⟨path, ?_⟩
  unfold path?
  rw [(contains_iff t).2 hu, (contains_iff t).2 hv, Bool.and_self, if_pos rfl,
    htraced.traceBack_eq (Nat.le_succ_of_le hlength), List.append_nil]

theorem path?_eq_none (t : SpanningTree) {u v : NodeId} (hout : ¬(u ∈ t.nodes ∧ v ∈ t.nodes)) :
    t.path? u v = none := by
  unfold path?
  rw [if_neg]
  rwa [Bool.and_eq_true, contains_iff, contains_iff]

/-- The way between two nodes of a tree is the only path of its graph between them. -/
theorem path?_eq_some_iff (h : t.Grown) {way : List NodeId} :
    t.path? u v = some way ↔
      u ∈ t.nodes ∧ v ∈ t.nodes ∧ ∃ path : t.graph.Path u v, path.1.support = way := by
  by_cases hin : u ∈ t.nodes ∧ v ∈ t.nodes
  · obtain ⟨path, hpath⟩ := h.exists_path hin.1 hin.2
    rw [hpath, Option.some.injEq]
    constructor
    · exact fun heq => ⟨hin.1, hin.2, path, heq⟩
    · rintro ⟨-, -, other, heq⟩
      rw [(h.acyclic.subsingleton_path u v).elim path other, heq]
  · rw [path?_eq_none t hin]
    exact iff_of_false nofun fun ⟨hu, hv, _⟩ => hin ⟨hu, hv⟩

end Grown

end SpanningTree

end Meshcast
