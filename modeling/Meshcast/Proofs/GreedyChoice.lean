import Meshcast.Proofs.RelaySelection

/-!
# Meshcast — the relays are chosen greedily

Who covers whom is a relation between neighbors and nodes. What the choice goes by, the only
coverers and the rank of a neighbor among those not chosen yet, is told in terms of it.

* **`RelaySelection.Picked.exists_of_append`** — each pick was the best candidate in its turn.
* **`RelaySelection.Picked.rank_le`** — the best candidate ranks highest of all that are not chosen.
* **`relays_chosen_greedily`** — the result.
-/

namespace Meshcast

namespace RelaySelection

/-- A symmetric neighbor covers a strict two-hop node. -/
def Covers (self : NodeId) (symmetric : NodeSet) (arcs : ArcSet) (n t : NodeId) : Prop :=
  ⟨n, t⟩ ∈ arcs ∧ n ∈ symmetric ∧ t ≠ self ∧ t ∉ symmetric

section Rank

variable (covers : NodeId → NodeId → Prop)

/-- Some node has this neighbor as its only coverer. -/
def IsSole (n : NodeId) : Prop :=
  ∃ t, covers n t ∧ ∀ m, covers m t → m = n

/-- Neighbors cover the node, but none of the chosen ones does. -/
def Uncovered (chosen : Set NodeId) (t : NodeId) : Prop :=
  (∃ n, covers n t) ∧ ∀ n ∈ chosen, ¬covers n t

/-- Neighbors rank by how many uncovered nodes they cover, then by how many nodes they cover at all,
then by their identifiers, of which the lowest ranks highest. -/
noncomputable def rank (chosen : Set NodeId) (n : NodeId) : ℕ ×ₗ ℕ ×ₗ ℕᵒᵈ :=
  toLex ({t | covers n t ∧ Uncovered covers chosen t}.ncard,
    toLex ({t | covers n t}.ncard, .toDual n.index))

end Rank

namespace Picked

variable {arcs : ArcSet} {order : List NodeId} {chosen uncovered : NodeSet}

theorem mem_chosen_iff_isSole (h : Picked arcs order chosen uncovered) {n : NodeId} :
    n ∈ chosen ↔ IsSole (fun n t => ⟨n, t⟩ ∈ arcs) n ∨ n ∈ order := by
  rw [h.mem_chosen, mem_soleCoverers]
  rfl

/-- Nobody is picked twice, and nobody who was chosen before the first pick. -/
theorem nodup (h : Picked arcs order chosen uncovered) :
    order.Nodup ∧ ∀ n ∈ order, ¬IsSole (fun n t => ⟨n, t⟩ ∈ arcs) n := by
  induction h with
  | start => exact ⟨List.nodup_nil, nofun⟩
  | @pick order chosen uncovered c h _ hbest ih =>
    obtain ⟨m, hfree, -, rfl⟩ := mem_candidates.1 (best?_candidates hbest).1
    rw [h.mem_chosen_iff_isSole, not_or] at hfree
    refine ⟨ih.1.append (List.nodup_singleton m) ?_, fun n hn => ?_⟩
    · exact List.disjoint_singleton.2 hfree.2
    · rcases List.mem_append.1 hn with hn | hn
      · exact ih.2 n hn
      · exact List.mem_singleton.1 hn ▸ hfree.1

/-- Each pick was the best candidate after those before it. -/
theorem exists_of_append {before after : List NodeId} {m : NodeId}
    (h : Picked arcs (before ++ m :: after) chosen uncovered) :
    ∃ chosen' uncovered' c, Picked arcs before chosen' uncovered'
      ∧ best? (candidates (coverage arcs) chosen' uncovered') = some c ∧ c.node = m := by
  generalize horder : before ++ m :: after = order at h
  induction h generalizing after with
  | start => simp at horder
  | @pick order chosen uncovered c h _ hbest ih =>
    -- the last pick is `m` itself or comes after it
    rcases after.eq_nil_or_concat' with rfl | ⟨rest, last, rfl⟩
    · obtain ⟨rfl, hlast⟩ := List.append_inj' horder rfl
      exact ⟨chosen, uncovered, c, h, hbest, (List.cons.inj hlast).1.symm⟩
    · rw [← List.cons_append, ← List.append_assoc] at horder
      exact ih (List.append_inj' horder rfl).1

theorem rank_asCandidate (h : Picked arcs order chosen uncovered) (n : NodeId) :
    (asCandidate (coverage arcs) uncovered n).rank
      = rank (fun n t => ⟨n, t⟩ ∈ arcs) {n | n ∈ chosen} n := by
  unfold rank Candidate.rank asCandidate
  dsimp only
  rw [← ncard_setOf_mem, ← ncard_setOf_mem]
  simp only [mem_filter, mem_of_coverage, Std.ExtTreeSet.contains_iff_mem, h.mem_uncovered]
  rfl

/-- **The best candidate ranks highest.** Those who are no candidates either are chosen already, or
cover no uncovered node, while it covers one. -/
theorem rank_le (h : Picked arcs order chosen uncovered) {c : Candidate}
    (hbest : best? (candidates (coverage arcs) chosen uncovered) = some c) {n : NodeId}
    (hn : n ∉ chosen) :
    rank (fun n t => ⟨n, t⟩ ∈ arcs) {n | n ∈ chosen} n
      ≤ rank (fun n t => ⟨n, t⟩ ∈ arcs) {n | n ∈ chosen} c.node := by
  obtain ⟨hc, hfirst⟩ := best?_candidates hbest
  obtain ⟨m, -, hcovers, rfl⟩ := mem_candidates.1 hc
  show _ ≤ rank _ _ m
  rw [← h.rank_asCandidate, ← h.rank_asCandidate]
  by_cases hn' : ∃ t ∈ uncovered, t ∈ (coverage arcs).of n
  · exact hfirst _ (mem_candidates.2 ⟨n, hn, hn', rfl⟩)
  · -- then it reaches nothing, while the best candidate reaches something
    rw [← size_filter_pos] at hcovers hn'
    refine Candidate.rank_le.2 (.inl ?_)
    show ((coverage arcs).of n |>.filter uncovered.contains).size
      < ((coverage arcs).of m |>.filter uncovered.contains).size
    omega

end Picked

end RelaySelection

open RelaySelection

/-- **Relays are chosen greedily.** Let any node have any symmetric neighbors, and take any arcs;
`covers` is then a relation between symmetric neighbors and strict two-hop nodes. Only neighbors
that cover something are chosen; each node that somebody covers is covered by one who is chosen; and
whoever is the only one to cover some node is chosen. Those chosen apart from these can be put in
order such that each of them, given the only coverers and those before, covers a node that was still
uncovered, and of all neighbors not chosen by then none ranks higher. In this order the rounds take
them: they have chosen them all when no node is left, and wherever they are before, a candidate is
there. -/
theorem relays_chosen_greedily (self : NodeId) (symmetric : NodeSet) (arcs : ArcSet) :
    let covers := Covers self symmetric arcs
    let relays := selectRelays self symmetric arcs
    let strict := strictArcs self symmetric arcs
    (∀ n ∈ relays, n ∈ symmetric ∧ ∃ t, covers n t)
      ∧ (∀ n t, covers n t → ∃ m ∈ relays, covers m t)
      ∧ (∀ n, IsSole covers n → n ∈ relays)
      ∧ (∃ order : List NodeId, order.Nodup ∧ (∀ n, n ∈ order ↔ n ∈ relays ∧ ¬IsSole covers n)
        ∧ (∀ before m after, order = before ++ m :: after →
          let chosen := {n | IsSole covers n ∨ n ∈ before}
          (∃ t, covers m t ∧ Uncovered covers chosen t)
            ∧ ∀ n ∈ symmetric, n ∉ chosen → rank covers chosen n ≤ rank covers chosen m)
        ∧ Picked strict order relays ∅)
      ∧ ∀ order chosen uncovered, Picked strict order chosen uncovered → uncovered ≠ ∅ →
        ∃ c, best? (candidates (coverage strict) chosen uncovered) = some c := by
  intro covers relays strict
  have hcovers : covers = fun n t => ⟨n, t⟩ ∈ strict := by
    funext n t
    exact propext mem_strictArcs.symm
  obtain ⟨order, hpicked⟩ := picked_selectRelays self symmetric arcs
  rw [hcovers]
  refine ⟨fun n hn => ?_, fun n t => exists_relay_of_strictArc, fun n hn => ?_, ?_,
    fun order chosen uncovered => Picked.exists_best?⟩
  · obtain ⟨t, ht⟩ := hpicked.exists_arc hn
    exact ⟨(mem_strictArcs.1 ht).2.1, t, ht⟩
  · exact hpicked.mem_chosen_iff_isSole.2 (.inl hn)
  · refine ⟨order, hpicked.nodup.1, fun n => ?_, fun before m after horder => ?_, hpicked⟩
    · have := hpicked.nodup.2 n
      rw [hpicked.mem_chosen_iff_isSole]
      tauto
    · rw [horder] at hpicked
      obtain ⟨chosen, uncovered, c, hbefore, hbest, rfl⟩ := hpicked.exists_of_append
      have hchosen : {n | IsSole (fun n t => ⟨n, t⟩ ∈ strict) n ∨ n ∈ before} = {n | n ∈ chosen} :=
        Set.ext fun n => hbefore.mem_chosen_iff_isSole.symm
      rw [hchosen]
      refine ⟨?_, fun n _ hn => hbefore.rank_le hbest hn⟩
      obtain ⟨m, -, ⟨t, ht, htm⟩, rfl⟩ := mem_candidates.1 (best?_candidates hbest).1
      exact ⟨t, mem_of_coverage.1 htm, hbefore.mem_uncovered.1 ht⟩

/-- Nodes 1 and 2 cover the same two nodes, and node 3 alone covers another one. Arcs to the node
itself and to its neighbors, and those of a node that is no neighbor, do not count. -/
example :
    selectRelays ⟨0⟩ (.ofList [(⟨1⟩ : NodeId), ⟨2⟩, ⟨3⟩])
      (.ofList [(⟨⟨1⟩, ⟨4⟩⟩ : Arc), ⟨⟨1⟩, ⟨5⟩⟩, ⟨⟨2⟩, ⟨0⟩⟩, ⟨⟨2⟩, ⟨3⟩⟩, ⟨⟨2⟩, ⟨4⟩⟩, ⟨⟨2⟩, ⟨5⟩⟩,
        ⟨⟨3⟩, ⟨6⟩⟩, ⟨⟨7⟩, ⟨8⟩⟩]) = .ofList [(⟨1⟩ : NodeId), ⟨3⟩] := by
  decide +kernel

end Meshcast
