import Meshcast.Proofs.NodeSets
import Meshcast.Routing

/-!
# Meshcast — routes are the shortest ways

* **`Way`** — the ways a node knows: to a symmetric neighbor, over one to a node it reports, and on
  along the advertised topology.
* **`Layered`** — the invariant of the layers: each entry is a way, and a shortest one; whoever has
  a way of at most so many hops has an entry.
* **`way_of_route`**, **`route_of_way`** — the routing table has exactly the destinations of ways of
  at most `maxHops` hops, each with a shortest way.
-/

namespace Meshcast

namespace Routing

variable (start : NodeId) (symmetric : NodeSet) (arcs : ArcSet) (topology : List Arc)

/-- From the node `start` over the neighbor `via` to a destination, in so many hops. -/
inductive Way : (via : NodeId) → (hops : Nat) → (destination : NodeId) → Prop
  | neighbor {n : NodeId} (h : n ∈ symmetric) : Way n 1 n
  | twoHop {n t : NodeId} (h : n ∈ symmetric) (harc : ⟨n, t⟩ ∈ arcs) (hstart : t ≠ start) :
    Way n 2 t
  | advertised {via u v : NodeId} {hops : Nat} (h : Way via hops u) (harc : ⟨u, v⟩ ∈ topology)
    (hstart : v ≠ start) : Way via (hops + 1) v

variable {start symmetric arcs topology}

theorem Way.pos {via v : NodeId} {hops : Nat} (h : Way start symmetric arcs topology via hops v) :
    1 ≤ hops := by
  cases h with
  | neighbor => exact Nat.le_refl 1
  | twoHop => exact Nat.le_succ 1
  | advertised => exact Nat.le_add_left 1 _

/-- A way starts with a symmetric neighbor. -/
theorem Way.via_mem {via v : NodeId} {hops : Nat}
    (h : Way start symmetric arcs topology via hops v) : via ∈ symmetric := by
  induction h with
  | neighbor h => exact h
  | twoHop h => exact h
  | advertised _ _ _ ih => exact ih

/-- A way leads back to where it starts only if the start is taken for a neighbor. -/
theorem Way.start_mem {via : NodeId} {hops : Nat}
    (h : Way start symmetric arcs topology via hops start) : start ∈ symmetric := by
  cases h with
  | neighbor h => exact h
  | twoHop _ _ hstart => exact absurd rfl hstart
  | advertised _ _ hstart => exact absurd rfl hstart

/-! ## The first two hops -/

theorem getElem?_toNeighbors {v : NodeId} :
    (toNeighbors symmetric)[v]? = if v ∈ symmetric then some ⟨v, 1⟩ else none := by
  have hfold : ∀ (nodes : List NodeId) (routes : RoutingTable),
      (nodes.foldl (fun routes node => routes.insert node ⟨node, 1⟩) routes)[v]? =
        if v ∈ nodes then some ⟨v, 1⟩ else routes[v]? := by
    intro nodes
    induction nodes with
    | nil => intro routes; rfl
    | cons node rest ih =>
      intro routes
      rw [List.foldl_cons, ih, Std.ExtTreeMap.getElem?_insert]
      by_cases hv : v ∈ rest
      · simp [hv]
      · by_cases hnode : node = v
        · simp [hnode]
        · simp [hv, hnode, Ne.symm hnode]
  unfold toNeighbors
  rw [Std.ExtTreeSet.foldl_eq_foldl_toList, hfold]
  simp only [Std.ExtTreeSet.mem_toList, Std.ExtTreeMap.getElem?_empty]

/-- Routes were added to a routing table: whoever had one keeps it, and of the others exactly those
got one to whom one was offered, a route that was offered. -/
structure Continued (offered : NodeId → Route → Prop) (routes routes' : RoutingTable) : Prop where
  kept : ∀ (v : NodeId) (r : Route), routes[v]? = some r → routes'[v]? = some r
  added : ∀ (v : NodeId) (r : Route), routes'[v]? = some r → routes[v]? = some r ∨ offered v r
  reached : ∀ (v : NodeId) (r : Route), offered v r → ∃ r', routes'[v]? = some r'

theorem Continued.of_known {offered : NodeId → Route → Prop} {routes : RoutingTable}
    (h : ∀ v r, offered v r → v ∈ routes) : Continued offered routes routes where
  kept _ _ hr := hr
  added _ _ hr := .inl hr
  reached v r hr := mem_iff_exists_getElem?.1 (h v r hr)

theorem Continued.of_insert {offered : NodeId → Route → Prop} {routes : RoutingTable}
    {node : NodeId} {route : Route} (hnew : node ∉ routes)
    (h : ∀ v r, offered v r ↔ v = node ∧ r = route) :
    Continued offered routes (routes.insert node route) where
  kept v r hr := by
    have hne : node ≠ v := by
      rintro rfl
      exact hnew (mem_iff_exists_getElem?.2 ⟨r, hr⟩)
    rw [Std.ExtTreeMap.getElem?_insert, if_neg (by simpa using hne), hr]
  added v r hr := by
    rw [Std.ExtTreeMap.getElem?_insert] at hr
    split at hr
    · rename_i heq
      exact .inr ((h v r).2 ⟨(Std.compare_eq_iff_eq.1 heq).symm, (Option.some.inj hr).symm⟩)
    · exact .inl hr
  reached v r hr := by
    obtain ⟨rfl, rfl⟩ := (h v r).1 hr
    exact ⟨r, Std.ExtTreeMap.getElem?_insert_self⟩

/-- Offers that a step makes at each arc, as long as what `stays` is about stays the same, are the
offers that all steps make together. -/
theorem continued_foldl {step : RoutingTable → Arc → RoutingTable}
    {offered : Arc → NodeId → Route → Prop} (stays : RoutingTable → Prop)
    (hstep : ∀ routes arc, stays routes →
      Continued (offered arc) routes (step routes arc) ∧ stays (step routes arc))
    (list : List Arc) {routes : RoutingTable} (h : stays routes) :
    Continued (fun v r => ∃ arc ∈ list, offered arc v r) routes (list.foldl step routes) := by
  induction list generalizing routes with
  | nil =>
    refine .of_known ?_
    rintro v r ⟨arc, harc, -⟩
    nomatch harc
  | cons arc rest ih =>
    obtain ⟨hfirst, hstays⟩ := hstep routes arc h
    have hrest := ih hstays
    rw [List.foldl_cons]
    refine ⟨fun v r hr => hrest.kept v r (hfirst.kept v r hr), ?_, ?_⟩
    · intro v r hr
      rcases hrest.added v r hr with hr | ⟨other, hother, hoffer⟩
      · rcases hfirst.added v r hr with hr | hoffer
        · exact .inl hr
        · exact .inr ⟨arc, List.mem_cons_self, hoffer⟩
      · exact .inr ⟨other, List.mem_cons_of_mem arc hother, hoffer⟩
    · rintro v r ⟨other, hother, hoffer⟩
      rcases List.mem_cons.1 hother with rfl | hother
      · obtain ⟨r', hr'⟩ := hfirst.reached v r hoffer
        exact ⟨r', hrest.kept v r' hr'⟩
      · exact hrest.reached v r ⟨other, hother, hoffer⟩

/-- Two hops lead to the targets of arcs from symmetric neighbors. -/
theorem continued_addTwoHop (start : NodeId) (symmetric : NodeSet) (list : List Arc)
    (routes : RoutingTable) :
    Continued
      (fun v r => ∃ arc ∈ list, v = arc.target ∧ arc.target ≠ start ∧ arc.source ∈ symmetric
        ∧ r = ⟨arc.source, 2⟩)
      routes (list.foldl (addTwoHop start symmetric) routes) := by
  refine continued_foldl (fun _ => True) ?_ list trivial
  intro routes arc _
  refine ⟨?_, trivial⟩
  unfold addTwoHop
  split
  · rename_i hon
    simp only [Bool.and_eq_true, bne_iff_ne, Std.ExtTreeSet.contains_iff_mem] at hon
    by_cases hknown : arc.target ∈ routes
    · have hsame : routes.insertIfNew arc.target ⟨arc.source, 2⟩ = routes := by
        refine Std.ExtTreeMap.ext_getElem? fun v => ?_
        rw [Std.ExtTreeMap.getElem?_insertIfNew, if_neg fun h => h.2 hknown]
      rw [hsame]
      exact .of_known fun v r h => h.1 ▸ hknown
    · have hinsert : routes.insertIfNew arc.target ⟨arc.source, 2⟩ =
          routes.insert arc.target ⟨arc.source, 2⟩ := by
        refine Std.ExtTreeMap.ext_getElem? fun v => ?_
        rw [Std.ExtTreeMap.getElem?_insertIfNew, Std.ExtTreeMap.getElem?_insert]
        simp [hknown]
      rw [hinsert]
      exact .of_insert hknown fun v r =>
        ⟨fun h => ⟨h.1, h.2.2.2⟩, fun h => ⟨h.1, hon.1, hon.2, h.2⟩⟩
  · rename_i hoff
    refine .of_known fun v r h => absurd ?_ hoff
    simpa using ⟨h.2.1, h.2.2.1⟩

/-- A layer adds the targets of arcs from whoever has a route of `hops` hops. Whether that is so
stays the same within the layer, since the new routes are longer. -/
theorem continued_addArc (start : NodeId) (hops : Nat) (list : List Arc) (routes : RoutingTable) :
    Continued
      (fun v r => ∃ arc ∈ list, v = arc.target ∧ arc.target ≠ start
        ∧ routes[arc.source]? = some ⟨r.nextHop, hops⟩ ∧ r.hops = hops + 1)
      routes (list.foldl (addArc start hops) routes) := by
  refine continued_foldl (fun current => ∀ (u via : NodeId),
    current[u]? = some ⟨via, hops⟩ ↔ routes[u]? = some ⟨via, hops⟩) ?_ list fun _ _ => Iff.rfl
  intro current arc hstays
  have hcontinued : Continued
      (fun v r => v = arc.target ∧ arc.target ≠ start
        ∧ routes[arc.source]? = some ⟨r.nextHop, hops⟩ ∧ r.hops = hops + 1)
      current (addArc start hops current arc) := by
    unfold addArc
    split
    · rename_i hoff
      simp only [Bool.or_eq_true, decide_eq_true_eq, Std.ExtTreeMap.contains_iff_mem] at hoff
      rcases hoff with hstart | hknown
      · exact .of_known fun v r h => absurd hstart h.2.1
      · exact .of_known fun v r h => h.1 ▸ hknown
    · rename_i hon
      simp only [Bool.or_eq_true, decide_eq_true_eq, Std.ExtTreeMap.contains_iff_mem, not_or] at hon
      split
      · rename_i via hvia
        split
        · rename_i hhops
          refine .of_insert hon.2 fun v r => ⟨fun h => ⟨h.1, ?_⟩, fun h => ⟨h.1, hon.1, ?_, ?_⟩⟩
          · have hsource := (hstays _ _).2 h.2.2.1
            rw [hvia, Option.some.injEq] at hsource
            cases r
            simp_all
          · rw [← hstays, hvia, h.2, ← hhops]
          · rw [h.2]
        · rename_i hhops
          refine .of_known fun v r h => absurd ?_ hhops
          have hsource := (hstays _ _).2 h.2.2.1
          rw [hvia, Option.some.injEq] at hsource
          rw [hsource]
      · rename_i hnone
        refine .of_known fun v r h => ?_
        rw [(hstays _ _).2 h.2.2.1] at hnone
        nomatch hnone
  refine ⟨hcontinued, fun u via => ?_⟩
  rw [← hstays]
  refine ⟨fun h => ?_, hcontinued.kept u _⟩
  rcases hcontinued.added u _ h with h | h
  · exact h
  · exact absurd h.2.2.2 (Nat.ne_of_lt (Nat.lt_succ_self hops))

/-! ## Layers -/

variable (start symmetric arcs topology) in
/-- All routes of at most `hops` hops are there, and all over a single neighbor. -/
structure Layered (hops : Nat) (routes : RoutingTable) : Prop where
  way : ∀ (v : NodeId) (r : Route), routes[v]? = some r →
    Way start symmetric arcs topology r.nextHop r.hops v ∧ r.hops ≤ max hops 2
  reached : ∀ (via v : NodeId) (k : Nat), Way start symmetric arcs topology via k v → k ≤ hops →
    ∃ r, routes[v]? = some r ∧ r.hops ≤ k
  overNeighbor : ∀ n ∈ symmetric, ∀ t, ⟨n, t⟩ ∈ arcs → t ≠ start → t ∈ routes

theorem layered_one :
    Layered start symmetric arcs topology 1
      (arcs.toList.foldl (addTwoHop start symmetric) (toNeighbors symmetric)) := by
  have h := continued_addTwoHop start symmetric arcs.toList (toNeighbors symmetric)
  refine ⟨?_, ?_, ?_⟩
  · intro v r hr
    rcases h.added v r hr with hfirst | ⟨arc, harc, rfl, hstart, hsource, rfl⟩
    · rw [getElem?_toNeighbors] at hfirst
      split at hfirst
      · rename_i hv
        cases hfirst
        exact ⟨.neighbor hv, Nat.le_succ 1⟩
      · nomatch hfirst
    · exact ⟨.twoHop hsource (Std.ExtTreeSet.mem_toList.1 harc) hstart, Nat.le_refl 2⟩
  · intro via v k hway hk
    cases hway with
    | neighbor hv => exact ⟨⟨via, 1⟩, h.kept via _ (by rw [getElem?_toNeighbors, if_pos hv]), hk⟩
    | twoHop => omega
    | advertised hway =>
      have := hway.pos
      omega
  · intro n hn t harc hstart
    exact mem_iff_exists_getElem?.2
      (h.reached t ⟨n, 2⟩ ⟨⟨n, t⟩, Std.ExtTreeSet.mem_toList.2 harc, rfl, hstart, hn, rfl⟩)

theorem Layered.next {hops : Nat} {routes : RoutingTable} (hpos : 1 ≤ hops)
    (h : Layered start symmetric arcs topology hops routes) :
    Layered start symmetric arcs topology (hops + 1)
      (topology.foldl (addArc start hops) routes) := by
  have hlayer := continued_addArc start hops topology routes
  refine ⟨?_, ?_, ?_⟩
  · intro v r hr
    rcases hlayer.added v r hr with hr | ⟨arc, harc, rfl, hstart, hsource, hhops⟩
    · obtain ⟨hway, hle⟩ := h.way v r hr
      exact ⟨hway, by omega⟩
    · have hway := Way.advertised (h.way arc.source _ hsource).1 harc hstart
      rw [hhops]
      exact ⟨hway, by omega⟩
  · intro via v k hway hk
    by_cases hle : k ≤ hops
    · obtain ⟨r, hr, hrk⟩ := h.reached via v k hway hle
      exact ⟨r, hlayer.kept v r hr, hrk⟩
    have hlast : k = hops + 1 := by omega
    subst hlast
    -- whoever has any entry now has one of at most this many hops
    have hany : ∀ r, (topology.foldl (addArc start hops) routes)[v]? = some r →
        r.hops ≤ hops + 1 := by
      intro r hr
      rcases hlayer.added v r hr with hr | ⟨_, _, _, _, _, hhops⟩
      · have := (h.way v r hr).2
        omega
      · omega
    cases hway with
    | neighbor => omega
    | twoHop hn harc hstart =>
      obtain ⟨r, hr⟩ := mem_iff_exists_getElem?.1 (h.overNeighbor via hn v harc hstart)
      exact ⟨r, hlayer.kept v r hr, hany r (hlayer.kept v r hr)⟩
    | advertised hway harc hstart =>
      obtain ⟨r, hr, hrk⟩ := h.reached via _ hops hway (Nat.le_refl _)
      by_cases hlt : r.hops < hops
      · -- there is a shorter way by the shorter route of the predecessor
        obtain ⟨r', hr', hrk'⟩ := h.reached r.nextHop v (r.hops + 1)
          (.advertised (h.way _ r hr).1 harc hstart) hlt
        exact ⟨r', hlayer.kept v r' hr', by omega⟩
      · have hhops : r.hops = hops := by omega
        obtain ⟨r', hr'⟩ := hlayer.reached v ⟨r.nextHop, hops + 1⟩
          ⟨_, harc, rfl, hstart, by rw [hr, ← hhops], rfl⟩
        exact ⟨r', hr', hany r' hr'⟩
  · intro n hn t harc hstart
    obtain ⟨r, hr⟩ := mem_iff_exists_getElem?.1 (h.overNeighbor n hn t harc hstart)
    exact mem_iff_exists_getElem?.2 ⟨r, hlayer.kept t r hr⟩

/-- Once a layer is empty, every way has been followed to its end. -/
theorem Layered.exhausted {hops : Nat} {routes : RoutingTable} (hpos : 1 ≤ hops)
    (h : Layered start symmetric arcs topology hops routes)
    (hempty : ∀ (v : NodeId) (r : Route), routes[v]? = some r → r.hops ≠ hops)
    {via v : NodeId} {k : Nat} (hway : Way start symmetric arcs topology via k v) :
    ∃ r, routes[v]? = some r ∧ r.hops ≤ k := by
  -- the first layer is not empty, since the way starts with a neighbor
  have htwo : 2 ≤ hops := by
    obtain ⟨r, hr, hle⟩ := h.reached via via 1 (.neighbor hway.via_mem) hpos
    have := (h.way via r hr).1.pos
    have := hempty via r hr
    omega
  induction hway with
  | neighbor hn => exact h.reached _ _ 1 (.neighbor hn) hpos
  | twoHop hn harc hstart => exact h.reached _ _ 2 (.twoHop hn harc hstart) htwo
  | advertised _ harc hstart ih =>
    obtain ⟨r, hr, hrk⟩ := ih
    obtain ⟨hshort, hle⟩ := h.way _ r hr
    have hne := hempty _ r hr
    obtain ⟨r', hr', hrk'⟩ :=
      h.reached _ _ (r.hops + 1) (.advertised hshort harc hstart) (by omega)
    exact ⟨r', hr', by omega⟩

theorem addLayers_spec (layers hops : Nat) {routes : RoutingTable} (hpos : 1 ≤ hops)
    (h : Layered start symmetric arcs topology hops routes) :
    (∀ (v : NodeId) (r : Route), (addLayers start topology layers hops routes)[v]? = some r →
        Way start symmetric arcs topology r.nextHop r.hops v ∧ r.hops ≤ max (hops + layers) 2)
      ∧ ∀ (via v : NodeId) (k : Nat), Way start symmetric arcs topology via k v →
        k ≤ hops + layers →
        ∃ r, (addLayers start topology layers hops routes)[v]? = some r ∧ r.hops ≤ k := by
  induction layers generalizing hops routes with
  | zero => exact ⟨h.way, h.reached⟩
  | succ layers ih =>
    unfold addLayers
    split
    · have := ih (hops + 1) (by omega) (h.next hpos)
      rwa [Nat.add_assoc, Nat.add_comm 1] at this
    · rename_i hempty
      have hnone : ∀ (v : NodeId) (r : Route), routes[v]? = some r → r.hops ≠ hops := by
        intro v r hr heq
        refine hempty (List.any_eq_true.2 ⟨r, mem_values.2 ⟨v, hr⟩, ?_⟩)
        rw [heq, decide_eq_true rfl]
      refine ⟨fun v r hr => ?_, fun via v k hway _ => h.exhausted hpos hnone hway⟩
      obtain ⟨hway, hle⟩ := h.way v r hr
      exact ⟨hway, by omega⟩

end Routing

/-! ## The routing table -/

open Routing

variable {start : NodeId} {symmetric : NodeSet} {arcs : ArcSet} {topology : List Arc}

/-- Every route is a way of so many hops over the neighbor it names. -/
theorem way_of_route {v : NodeId} {r : Route}
    (h : (computeRoutes start symmetric arcs topology)[v]? = some r) :
    Way start symmetric arcs topology r.nextHop r.hops v ∧ r.hops ≤ maxHops := by
  obtain ⟨hway, hle⟩ := (addLayers_spec (maxHops - 1) 1 (Nat.le_refl 1) layered_one).1 v r h
  exact ⟨hway, hle⟩

/-- Where a way of at most `maxHops` hops leads, there is a route that is no longer. -/
theorem route_of_way {via v : NodeId} {hops : Nat}
    (h : Way start symmetric arcs topology via hops v) (hle : hops ≤ maxHops) :
    ∃ r, (computeRoutes start symmetric arcs topology)[v]? = some r ∧ r.hops ≤ hops :=
  (addLayers_spec (maxHops - 1) 1 (Nat.le_refl 1) layered_one).2 via v hops h hle

end Meshcast
