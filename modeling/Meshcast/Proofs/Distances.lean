import Mathlib.Order.Bounds.Basic
import Mathlib.Order.Nat
import Meshcast.Proofs.Routing

/-!
# Meshcast — routes are as long as the distance

What a node knows is a directed graph: a link to each of its symmetric neighbors, the reported links
from these to others, and the advertised ones, save those that touch the node itself. The routes are
found in layers that take these links from three different places; all the same, their hops are the
distances in this one graph.

* **`Hop`**, **`Walk`** — the links of the graph, and the walks along them.
* **`walk_of_way`** — a way is a walk; **`way_of_walk`** — where a walk leads, a way leads that is
  no longer, since whatever is reported by a neighbor is two hops away wherever the walk has been
  before.
* **`routes_exact`** — the result.
-/

namespace Meshcast

namespace Routing

variable (start : NodeId) (symmetric : NodeSet) (arcs : ArcSet) (topology : List Arc)

/-- The links that routes from the node `start` may follow. Of reports only those of its symmetric
neighbors count, and nothing that is advertised by the node itself or about it. -/
inductive Hop : NodeId → NodeId → Prop
  | neighbor {n : NodeId} (h : n ∈ symmetric) : Hop start n
  | twoHop {n t : NodeId} (h : n ∈ symmetric) (harc : ⟨n, t⟩ ∈ arcs) (hstart : t ≠ start) : Hop n t
  | advertised {u v : NodeId} (harc : ⟨u, v⟩ ∈ topology) (hsource : u ≠ start)
    (htarget : v ≠ start) : Hop u v

/-- A walk of so many hops. -/
inductive Walk (source : NodeId) : Nat → NodeId → Prop
  | here : Walk source 0 source
  | step {u v : NodeId} {n : Nat} (h : Walk source n u)
    (hop : Hop start symmetric arcs topology u v) : Walk source (n + 1) v

variable {start symmetric arcs topology}

/-- A walk may get one more hop in front. -/
theorem Walk.cons {u v w : NodeId} {n : Nat} (hop : Hop start symmetric arcs topology u v)
    (h : Walk start symmetric arcs topology v n w) :
    Walk start symmetric arcs topology u (n + 1) w := by
  induction h with
  | here => exact .step .here hop
  | step _ hlast ih => exact .step ih hlast

section Ways

variable (hstart : start ∉ symmetric)

include hstart

/-- A way is a walk that starts with a hop to the neighbor it is over. -/
theorem walk_of_way {via v : NodeId} {hops : Nat}
    (h : Way start symmetric arcs topology via hops v) :
    ∃ n, hops = n + 1 ∧ Walk start symmetric arcs topology via n v := by
  induction h with
  | neighbor => exact ⟨0, rfl, .here⟩
  | twoHop hn harc htarget => exact ⟨1, rfl, .step .here (.twoHop hn harc htarget)⟩
  | @advertised u v hops hway harc htarget ih =>
    obtain ⟨n, rfl, hwalk⟩ := ih
    -- no way leads to the start, so the link is none of its own
    have hsource : u ≠ start := by
      rintro rfl
      exact hstart hway.start_mem
    exact ⟨n + 1, rfl, .step hwalk (.advertised harc hsource htarget)⟩

/-- Where a walk from the start leads, there is a way that is no longer. -/
theorem way_of_walk {v : NodeId} {n : Nat} (h : Walk start symmetric arcs topology start n v)
    (hv : v ≠ start) : ∃ via k, k ≤ n ∧ Way start symmetric arcs topology via k v := by
  induction h with
  | here => exact absurd rfl hv
  | @step u v n hwalk hop ih =>
    cases hop with
    | neighbor hn => exact ⟨v, 1, by omega, .neighbor hn⟩
    | twoHop hn harc htarget =>
      -- the walk has left the start, which is no neighbor of itself
      have hpos : n ≠ 0 := by
        rintro rfl
        cases hwalk
        exact hstart hn
      exact ⟨u, 2, by omega, .twoHop hn harc htarget⟩
    | advertised harc hsource htarget =>
      obtain ⟨via, k, hk, hway⟩ := ih hsource
      exact ⟨via, k + 1, by omega, .advertised hway harc htarget⟩

end Ways

end Routing

open Routing

variable {start : NodeId} {symmetric : NodeSet} {arcs : ArcSet} {topology : List Arc}

/-- A route has as many hops as the shortest walk. -/
theorem isLeast_hops (hstart : start ∉ symmetric) {v : NodeId} {r : Route}
    (h : (computeRoutes start symmetric arcs topology)[v]? = some r) :
    IsLeast {n | Walk start symmetric arcs topology start n v} r.hops := by
  obtain ⟨hway, hmax⟩ := way_of_route h
  have hv : v ≠ start := by
    rintro rfl
    exact hstart hway.start_mem
  obtain ⟨n, hn, hwalk⟩ := walk_of_way hstart hway
  refine ⟨?_, fun m hm => ?_⟩
  · show Walk start symmetric arcs topology start r.hops v
    rw [hn]
    exact hwalk.cons (.neighbor hway.via_mem)
  · obtain ⟨via, k, hk, hway'⟩ := way_of_walk hstart hm hv
    by_cases hshort : k ≤ maxHops
    · obtain ⟨r', hr', hle⟩ := route_of_way hway' hshort
      obtain rfl := Option.some.inj (h.symm.trans hr')
      omega
    · omega

/-- **The routes are exact breadth-first distances.** A node that is not its own neighbor has a
route to another one exactly if the distance between them is at most 255 hops. The route has as many
hops as the distance, and the next hop is a symmetric neighbor with which a shortest walk starts. -/
theorem routes_exact (hstart : start ∉ symmetric) :
    (∀ v, v ∈ computeRoutes start symmetric arcs topology ↔
        v ≠ start ∧ ∃ d, 1 ≤ d ∧ d ≤ 255
          ∧ IsLeast {n | Walk start symmetric arcs topology start n v} d)
      ∧ ∀ v r, (computeRoutes start symmetric arcs topology)[v]? = some r →
        IsLeast {n | Walk start symmetric arcs topology start n v} r.hops
          ∧ r.nextHop ∈ symmetric
          ∧ ∃ n, r.hops = n + 1 ∧ Walk start symmetric arcs topology r.nextHop n v := by
  refine ⟨fun v => ⟨fun hv => ?_, ?_⟩, fun v r hr => ?_⟩
  · obtain ⟨r, hr⟩ := mem_iff_exists_getElem?.1 hv
    obtain ⟨hway, hmax⟩ := way_of_route hr
    refine ⟨?_, r.hops, hway.pos, hmax, isLeast_hops hstart hr⟩
    rintro rfl
    exact hstart hway.start_mem
  · rintro ⟨hne, d, -, hd, hleast⟩
    obtain ⟨via, k, hk, hway⟩ := way_of_walk hstart hleast.1 hne
    obtain ⟨r, hr, -⟩ := route_of_way hway (Nat.le_trans hk hd)
    exact mem_iff_exists_getElem?.2 ⟨r, hr⟩
  · have hway := (way_of_route hr).1
    exact ⟨isLeast_hops hstart hr, hway.via_mem, walk_of_way hstart hway⟩

/-- From node 0 over its neighbors 1 and 2 there are two ways to node 4, of three and of four hops.
Nobody but node 0 itself is said to reach node 6. -/
theorem routes_exact_detour :
    let symmetric : NodeSet := .ofList [(⟨1⟩ : NodeId), ⟨2⟩]
    let arcs : ArcSet := .ofList [(⟨⟨1⟩, ⟨3⟩⟩ : Arc), ⟨⟨2⟩, ⟨0⟩⟩]
    let topology : List Arc :=
      [⟨⟨5⟩, ⟨4⟩⟩, ⟨⟨3⟩, ⟨5⟩⟩, ⟨⟨3⟩, ⟨4⟩⟩, ⟨⟨4⟩, ⟨1⟩⟩, ⟨⟨4⟩, ⟨0⟩⟩, ⟨⟨0⟩, ⟨6⟩⟩]
    (⟨0⟩ : NodeId) ∉ symmetric
      ∧ IsLeast {n | Walk ⟨0⟩ symmetric arcs topology ⟨0⟩ n ⟨4⟩} 3
      ∧ Walk ⟨0⟩ symmetric arcs topology ⟨1⟩ 2 ⟨4⟩
      ∧ ¬∃ d, 1 ≤ d ∧ d ≤ 255 ∧ IsLeast {n | Walk ⟨0⟩ symmetric arcs topology ⟨0⟩ n ⟨6⟩} d := by
  intro symmetric arcs topology
  have hstart : (⟨0⟩ : NodeId) ∉ symmetric := by decide +kernel
  have hfour : (computeRoutes ⟨0⟩ symmetric arcs topology)[(⟨4⟩ : NodeId)]? = some ⟨⟨1⟩, 3⟩ := by
    decide +kernel
  have hsix : (⟨6⟩ : NodeId) ∉ computeRoutes ⟨0⟩ symmetric arcs topology := by decide +kernel
  obtain ⟨hroutes, hexact⟩ := @routes_exact ⟨0⟩ symmetric arcs topology hstart
  obtain ⟨hleast, -, n, hn, hwalk⟩ := hexact _ _ hfour
  obtain rfl : 2 = n := Nat.succ.inj hn
  exact ⟨hstart, hleast, hwalk, fun h => hsix ((hroutes _).2 ⟨by decide, h⟩)⟩

end Meshcast
