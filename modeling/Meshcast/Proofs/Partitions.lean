import Meshcast.Proofs.Forwarding
import Meshcast.Proofs.TreeGraph

/-!
# Meshcast — a relay splits its targets along the tree

What a relay hands to a neighbor in its tree is what it is responsible for on the paths that start
over that neighbor. The rest it sends directly: nodes behind a neighbor that is no target itself,
and nodes that are not in the tree at all.

* **`mem_direct_partition`**, **`mem_fallback_partition_iff`** — who is handed to whom, and who is
  left over, in terms of the paths of the tree.
* **`partition_along_tree`** — the result.
-/

namespace Meshcast

section Partition

variable {t : SpanningTree} {self : NodeId} {pending : NodeSet} (h : t.Grown)
include h

theorem mem_pendingBehind_iff {via x : NodeId} (hvia : via ∈ pendingHops t self pending) :
    x ∈ pendingBehind t self pending via ↔ x ∈ pending ∧ t.LeadsOver self via x := by
  rw [mem_pendingBehind, h.mem_branch_iff (mem_pendingHops.1 hvia).1, and_comm]

theorem mem_direct_partition {via : NodeId} {behind : NodeSet} :
    (via, behind) ∈ (partition t self pending).direct ↔
      via ∈ t.neighbors self ∧ via ∈ pending
        ∧ ∀ x, x ∈ behind ↔ x ∈ pending ∧ x ≠ via ∧ t.LeadsOver self via x := by
  rw [direct_partition, behindHops, List.mem_map, ← and_assoc, ← mem_pendingHops]
  constructor
  · rintro ⟨hop, hhop, heq⟩
    rw [Prod.mk.injEq] at heq
    obtain ⟨rfl, rfl⟩ := heq
    refine ⟨hhop, fun x => ?_⟩
    rw [mem_erase, mem_pendingBehind_iff h hhop, and_left_comm]
  · rintro ⟨hvia, hbehind⟩
    refine ⟨via, hvia, congrArg (via, ·) (Std.ExtTreeSet.ext_mem fun x => ?_)⟩
    rw [hbehind, mem_erase, mem_pendingBehind_iff h hvia, and_left_comm]

theorem mem_fallback_partition_iff {x : NodeId} :
    x ∈ (partition t self pending).fallback ↔
      x ∈ pending ∧ x ≠ self
        ∧ ¬∃ via ∈ t.neighbors self, via ∈ pending ∧ (x = via ∨ t.LeadsOver self via x) := by
  rw [mem_fallback_partition]
  refine and_congr_right fun hx => and_congr_right fun _ => ?_
  simp only [not_exists, not_and, mem_pendingHops, and_imp]
  refine forall_congr' fun via => forall_congr' fun hvia => forall_congr' fun hpending => ?_
  rw [mem_pendingBehind_iff h (mem_pendingHops.2 ⟨hvia, hpending⟩), not_and, not_or]
  constructor
  · intro hnone
    refine ⟨?_, hnone hx⟩
    rintro rfl
    exact hnone hx ((h.mem_branch_iff hvia).1 (h.mem_branch_self hvia))
  · exact fun hnone _ => hnone.2

end Partition

/-- **A relay splits its targets along the tree, completely and disjointly.** Whatever tree was
built, and whoever splits whatever nodes, in the tree or not: the recipients are the neighbors in
the tree that are pending; each gets the other pending nodes to which the path of the tree starts
over it; those nodes that are neither pending neighbors nor behind one are left over. Recipients,
what they get, and what is left over have nothing in common, and together they are the pending
nodes without the node that splits them. -/
theorem partition_along_tree {t : SpanningTree} (h : t.Built) (self : NodeId) (pending : NodeSet) :
    let split := partition t self pending
    (∀ via, (∃ behind, (via, behind) ∈ split.direct) ↔ via ∈ t.neighbors self ∧ via ∈ pending)
      ∧ (∀ via behind, (via, behind) ∈ split.direct →
        ∀ x, x ∈ behind ↔ x ∈ pending ∧ x ≠ via ∧ t.LeadsOver self via x)
      ∧ (∀ x, x ∈ split.fallback ↔ x ∈ pending ∧ x ≠ self
        ∧ ¬∃ via ∈ t.neighbors self, via ∈ pending ∧ (x = via ∨ t.LeadsOver self via x))
      ∧ (split.assignments.flatMap Assignment.nodes).Nodup
      ∧ ∀ x, x ∈ split.assignments.flatMap Assignment.nodes ↔ x ∈ pending ∧ x ≠ self := by
  intro split
  have hgrown := h.grown
  have hperm : (split.assignments.flatMap Assignment.nodes).Perm (pending.erase self).toList :=
    perm_partition hgrown
  refine ⟨fun via => ?_, fun via behind hmem => ((mem_direct_partition hgrown).1 hmem).2.2,
    fun x => mem_fallback_partition_iff hgrown, hperm.nodup_iff.2 (nodup_toList _), fun x => ?_⟩
  · constructor
    · rintro ⟨behind, hmem⟩
      obtain ⟨hneighbor, hpending, -⟩ := (mem_direct_partition hgrown).1 hmem
      exact ⟨hneighbor, hpending⟩
    · intro hvia
      refine ⟨(pendingBehind t self pending via).erase via, ?_⟩
      rw [direct_partition, behindHops, List.mem_map]
      exact ⟨via, mem_pendingHops.2 hvia, rfl⟩
  · rw [hperm.mem_iff, Std.ExtTreeSet.mem_toList, mem_erase, and_comm]

/-- Node 3 is in the middle of its tree, with nodes 0, 4 and 6 around it. Of its targets it hands
node 5 to node 4. Node 1 is behind node 0, which is no target, and node 9 is not in the tree, so
these two are left over. -/
theorem partition_along_tree_inner :
    let edges : List (NodeId × NodeId) :=
      [(⟨0⟩, ⟨1⟩), (⟨0⟩, ⟨3⟩), (⟨3⟩, ⟨4⟩), (⟨4⟩, ⟨5⟩), (⟨3⟩, ⟨6⟩)]
    let t : SpanningTree := edges.foldl (fun t e => t.attach e.2 e.1 1) (.singleton ⟨0⟩)
    let pending : NodeSet := .ofList [(⟨1⟩ : NodeId), ⟨3⟩, ⟨4⟩, ⟨5⟩, ⟨9⟩]
    t.Built
      ∧ partition t ⟨3⟩ pending =
        ⟨[(⟨4⟩, .ofList [(⟨5⟩ : NodeId)])], .ofList [(⟨1⟩ : NodeId), ⟨9⟩]⟩
      ∧ t.LeadsOver ⟨3⟩ ⟨4⟩ ⟨5⟩ ∧ ¬t.LeadsOver ⟨3⟩ ⟨4⟩ ⟨1⟩ := by
  intro edges t pending
  have hbuilt : t.Built := by
    let g : Graph := edges.foldl (fun g e => g.connect e.1 e.2 1) {}
    have hfound : g.minimumSpanningTree ⟨0⟩ = .ok t := by decide +kernel
    exact .minimum hfound
  have hsplit : partition t ⟨3⟩ pending =
      ⟨[(⟨4⟩, .ofList [(⟨5⟩ : NodeId)])], .ofList [(⟨1⟩ : NodeId), ⟨9⟩]⟩ := by
    decide +kernel
  obtain ⟨-, hbehind, -⟩ := partition_along_tree hbuilt ⟨3⟩ pending
  rw [hsplit] at hbehind
  have hfour := hbehind ⟨4⟩ _ List.mem_cons_self
  refine ⟨hbuilt, hsplit, ((hfour ⟨5⟩).1 (by decide +kernel)).2.2, fun hleads => ?_⟩
  exact absurd ((hfour ⟨1⟩).2 ⟨by decide +kernel, by decide, hleads⟩) (by decide +kernel)

end Meshcast
