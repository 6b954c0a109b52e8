import Mathlib.Data.List.Perm.Subperm
import Mathlib.Logic.Relation
import Meshcast.Graph.Reachability
import Meshcast.Proofs.WeightedGraph

/-!
# Meshcast — exploring breadth first finds all that can be reached

* **`Explored`** — what holds at any time: nodes that are found can be reached, they have been visited
  or are in the queue, and whatever is next to a visited node is found.
* **`Explored.visit`** — a visit keeps it; **`Explored.length_le`** — there are no more visits than
  nodes.
* **`mem_explore`**, **`mem_closure`** — what is found is all that steps lead to.
* **`mem_reachableFrom`** — what is reachable in a graph is what its edges lead to.
-/

namespace Meshcast

namespace Graph

/-- From `root` exactly so much has been explored: the nodes found so far are those visited and those
in the queue. -/
structure Explored (next : NodeId → NodeSet) (root : NodeId) (visited queue : List NodeId) :
    Prop where
  nodup : (visited ++ queue).Nodup
  root_mem : root ∈ visited ++ queue
  reachable : ∀ x ∈ visited ++ queue, Relation.ReflTransGen (fun a b => b ∈ next a) root x
  closed : ∀ x ∈ visited, ∀ y ∈ next x, y ∈ visited ++ queue

/-- A visited node goes from the queue to the visited ones, and what it finds goes to the end. -/
theorem append_visit (visited queue found : List NodeId) (node : NodeId) :
    (visited ++ [node]) ++ (queue ++ found) = (visited ++ node :: queue) ++ found := by
  simp

section Explored

variable {next : NodeId → NodeSet} {root node : NodeId} {visited queue found : List NodeId}

theorem explored_start (next : NodeId → NodeSet) (root : NodeId) :
    Explored next root [] [root] where
  nodup := List.nodup_singleton root
  root_mem := List.mem_cons_self
  reachable x hx := by
    obtain rfl := List.mem_singleton.1 hx
    exact .refl
  closed x hx := nomatch hx

theorem Explored.visit (h : Explored next root visited (node :: queue)) (hnodup : found.Nodup)
    (hfound : ∀ x, x ∈ found ↔ x ∈ next node ∧ x ∉ visited ++ node :: queue) :
    Explored next root (visited ++ [node]) (queue ++ found) := by
  refine ⟨?_, ?_, fun x hx => ?_, fun x hx y hy => ?_⟩
  · rw [append_visit, List.nodup_append]
    exact ⟨h.nodup, hnodup, fun x hx y hy heq => ((hfound y).1 hy).2 (heq ▸ hx)⟩
  · rw [append_visit]
    exact List.mem_append_left _ h.root_mem
  · rw [append_visit] at hx
    rcases List.mem_append.1 hx with hx | hx
    · exact h.reachable x hx
    · exact (h.reachable node (by simp)).tail ((hfound x).1 hx).1
  · rw [append_visit, List.mem_append]
    rcases List.mem_append.1 hx with hx | hx
    · exact .inl (h.closed x hx y hy)
    · obtain rfl := List.mem_singleton.1 hx
      by_cases hold : y ∈ visited ++ x :: queue
      · exact .inl hold
      · exact .inr ((hfound y).2 ⟨hy, hold⟩)

theorem Explored.length_le (h : Explored next root visited queue) {nodes : List NodeId}
    (hnodes : ∀ x, ∀ y ∈ next x, y ∈ nodes) (hroot : root ∈ nodes) :
    visited.length + queue.length ≤ nodes.length := by
  have hinside : visited ++ queue ⊆ nodes := by
    intro x hx
    rcases Relation.ReflTransGen.cases_tail (h.reachable x hx) with rfl | ⟨y, -, hy⟩
    · exact hroot
    · exact hnodes y x hy
  have hle := (h.nodup.subperm hinside).length_le
  rw [List.length_append] at hle
  exact hle

/-- When nobody is left to visit, all that steps lead to has been visited. -/
theorem Explored.mem_visited (h : Explored next root visited []) {x : NodeId} :
    x ∈ visited ↔ Relation.ReflTransGen (fun a b => b ∈ next a) root x := by
  have hall : ∀ y, y ∈ visited ++ [] → y ∈ visited := fun y hy => List.append_nil visited ▸ hy
  constructor
  · exact fun hx => h.reachable x (List.mem_append_left [] hx)
  · intro hsteps
    induction hsteps with
    | refl => exact hall _ h.root_mem
    | tail _ hstep ih => exact hall _ (h.closed _ ih _ hstep)

theorem Explored.explore (h : Explored next root visited queue) {nodes : List NodeId}
    (hnodes : ∀ x, ∀ y ∈ next x, y ∈ nodes) (hroot : root ∈ nodes) (fuel : Nat)
    (hfuel : nodes.length ≤ visited.length + fuel) {reached : NodeSet}
    (hreached : ∀ x, x ∈ reached ↔ x ∈ visited ++ queue) :
    ∃ visited', Explored next root visited' []
      ∧ ∀ x, x ∈ explore next fuel queue reached ↔ x ∈ visited' := by
  induction fuel generalizing visited queue reached with
  | zero =>
    have hle := h.length_le hnodes hroot
    obtain rfl : queue = [] := List.length_eq_zero_iff.1 (by omega)
    exact ⟨visited, h, fun x => by rw [Graph.explore, hreached, List.append_nil]⟩
  | succ fuel ih =>
    cases queue with
    | nil => exact ⟨visited, h, fun x => by rw [Graph.explore, hreached, List.append_nil]⟩
    | cons node queue =>
      refine ih (h.visit ((nodup_toList _).filter _) fun x => ?_) ?_ fun x => ?_
      · rw [List.mem_filter, Std.ExtTreeSet.mem_toList, Bool.not_eq_true', contains_eq_false,
          hreached]
      · rw [List.length_append, List.length_singleton]
        omega
      · rw [Std.ExtTreeSet.mem_insertMany_list, List.contains_iff_mem, append_visit,
          List.mem_append, hreached]

end Explored

variable {next : NodeId → NodeSet}

/-- With fuel for all nodes, exploring finds what steps lead to. -/
theorem mem_explore {nodes : List NodeId} (hnodes : ∀ x, ∀ y ∈ next x, y ∈ nodes) {root : NodeId}
    (hroot : root ∈ nodes) {fuel : Nat} (hfuel : nodes.length ≤ fuel) {x : NodeId} :
    x ∈ explore next fuel [root] (.ofList [root]) ↔
      Relation.ReflTransGen (fun a b => b ∈ next a) root x := by
  have hstart : ∀ y, y ∈ Std.ExtTreeSet.ofList [root] ↔ y ∈ [] ++ [root] := fun _ => mem_ofList
  obtain ⟨visited, hend, hmem⟩ := (explored_start next root).explore hnodes hroot fuel
    (hfuel.trans (Nat.le_add_left _ _)) hstart
  rw [hmem, hend.mem_visited]

theorem mem_closure {g : Graph} {root : NodeId} (hnext : ∀ x, ∀ y ∈ next x, y ∈ g.nodes)
    (hroot : root ∈ g.nodes) {x : NodeId} :
    x ∈ g.closure next root ↔ Relation.ReflTransGen (fun a b => b ∈ next a) root x :=
  mem_explore (fun y z hz => Std.ExtTreeSet.mem_toList.2 (hnext y z hz))
    (Std.ExtTreeSet.mem_toList.2 hroot) (Nat.le_of_eq Std.ExtTreeSet.length_toList)

theorem mem_reachableFrom {g : Graph} (h : g.Coherent) {root : NodeId} (hroot : root ∈ g.nodes)
    {x : NodeId} : x ∈ g.reachableFrom root ↔ Relation.ReflTransGen g.HasEdge root x := by
  have hcontains : g.contains root = true := Std.ExtTreeSet.contains_iff_mem.2 hroot
  unfold reachableFrom
  rw [if_pos hcontains, mem_closure (fun a b hb => h.target_mem a b (mem_successors.1 hb)) hroot]
  simp only [mem_successors]

end Graph

end Meshcast
