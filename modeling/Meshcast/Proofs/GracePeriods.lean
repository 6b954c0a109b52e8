import Meshcast.Proofs.GroupTrees
import Meshcast.Proofs.Handling

/-!
# Meshcast — how long grace periods last

An overlay gets graphs and ticks, in any order. A node that a new tree leaves out has a grace period
from then on, and while it stays out further graphs neither start the period afresh nor end it; a
tree that has the node again ends it. The ticks that are left are therefore a matter of the history
alone: of when the node was left out for the last time, and of the ticks since.

* **`Overlay.mem_nodes_treeOver`** — the nodes of a tree, be it a minimum spanning tree or a star.
* **`Overlay.Away`** — a node was left out of the tree some ticks ago and has not been back.
* **`Overlay.getElem?_remaining_run`** — the ticks that are left, and those that have passed, make
  up the grace period.
* **`Node.recompute_cases`** — what computing afresh does to overlays.
* **`Node.overlaysFollow_run`** — the overlays of a node are overlays with a history.
* **`grace_periods_exact`** — the result.
-/

namespace Meshcast

/-! ## Nodes of a tree -/

/-- A search that succeeds ends with a tree over all nodes of the graph, whatever the graph. -/
theorem Graph.mem_nodes_of_minimumSpanningTree {g : Graph} {root : NodeId} {t : SpanningTree}
    (h : g.minimumSpanningTree root = .ok t) :
    root ∈ g.nodes ∧ t.root = root ∧ ∀ x, x ∈ t.nodes ↔ x ∈ g.nodes := by
  by_cases hroot : root ∈ g.nodes
  · refine ⟨hroot, ?_⟩
    have hfirst := encloses_relax_startingFrontier hroot
    have hsize := hfirst.size_lt (SpanningTree.mem_nodes_singleton.2 rfl)
    rw [minimumSpanningTree_eq hroot] at h
    refine growTree_induction
      (fun t frontier => frontier.Encloses g t ∧ t.root = root)
      (fun result => ∀ t, result = .ok t → t.root = root ∧ ∀ x, x ∈ t.nodes ↔ x ∈ g.nodes)
      ?_ ?_ ?_ _ ⟨hfirst, rfl⟩ (by omega) t h
    · rintro t frontier node known ⟨hs, hrooted⟩ hnearest hreached
      obtain ⟨hnode, -, p, hp, -, hjoined⟩ := hs.exists_parent hnearest hreached
      rw [hjoined]
      exact ⟨hs.relax hnode fun x => SpanningTree.mem_nodes_attach known.weight hp, hrooted⟩
    · rintro t frontier node known - - - t' ht'
      nomatch ht'
    · rintro t frontier ⟨hs, hrooted⟩ hempty t' ht'
      cases ht'
      exact ⟨hrooted, hs.mem_nodes_of_empty hempty⟩
  · unfold minimumSpanningTree at h
    rw [show g.contains root = false from contains_eq_false.2 hroot, if_neg Bool.false_ne_true] at h
    nomatch h

theorem SpanningTree.mem_nodes_star {root x : NodeId} {nodes : NodeSet} :
    (star root nodes).root = root ∧ (x ∈ (star root nodes).nodes ↔ x = root ∨ x ∈ nodes) := by
  have hattach : ∀ (list : List NodeId) (t : SpanningTree), root ∈ t.nodes →
      let t' := list.foldl (fun t node => t.attach node root unitWeight) t
      t'.root = t.root ∧ (x ∈ t'.nodes ↔ x ∈ list ∨ x ∈ t.nodes) := by
    intro list
    induction list with
    | nil => exact fun t _ => ⟨rfl, by simp⟩
    | cons first rest ih =>
      intro t there
      obtain ⟨hroot, hmem⟩ := ih (t.attach first root unitWeight)
        ((mem_nodes_attach unitWeight there).2 (.inr there))
      refine ⟨hroot, hmem.trans ?_⟩
      rw [mem_nodes_attach unitWeight there, List.mem_cons, or_left_comm, or_assoc]
  obtain ⟨hroot, hmem⟩ :=
    hattach (nodes.erase root).toList (singleton root) (mem_nodes_singleton.2 rfl)
  unfold star
  rw [Std.ExtTreeSet.foldl_eq_foldl_toList]
  refine ⟨hroot, hmem.trans ?_⟩
  rw [Std.ExtTreeSet.mem_toList, mem_erase, mem_nodes_singleton]
  tauto

namespace Overlay

theorem root_treeOver (self : NodeId) (graph : Graph) : (treeOver self graph).root = self := by
  unfold treeOver
  split
  · rename_i tree h
    exact (Graph.mem_nodes_of_minimumSpanningTree h).2.1
  · exact (SpanningTree.mem_nodes_star (x := self)).1

/-- Minimum spanning tree or star, the tree has the nodes of the graph and the node itself. -/
theorem mem_nodes_treeOver {self x : NodeId} {graph : Graph} :
    x ∈ (treeOver self graph).nodes ↔ x = self ∨ x ∈ graph.nodes := by
  unfold treeOver
  split
  · rename_i tree h
    obtain ⟨hself, -, hmem⟩ := Graph.mem_nodes_of_minimumSpanningTree h
    rw [hmem]
    exact ⟨.inr, fun h => h.elim (fun heq => heq ▸ hself) id⟩
  · exact SpanningTree.mem_nodes_star.2

end Overlay

/-! ## Ticks that are left -/

namespace Grace

theorem mem_nodes {grace : Grace} {n : NodeId} :
    n ∈ grace.nodes ↔ ∃ left, grace.remaining[n]? = some left := by
  unfold nodes
  rw [mem_ofList, Std.ExtTreeMap.mem_keys, mem_iff_exists_getElem?]

theorem getElem?_start {grace : Grace} {node n : NodeId} {ticks : Nat} :
    (grace.start node ticks).remaining[n]? =
      if n = node ∧ ticks ≠ 0 then some ticks else grace.remaining[n]? := by
  unfold start
  split
  · rename_i hticks
    simp [hticks]
  · rename_i hticks
    rw [Std.ExtTreeMap.getElem?_insert]
    simp [hticks, eq_comm (a := n)]

theorem getElem?_foldl_start {list : List NodeId} {grace : Grace} {ticks : Nat} {n : NodeId} :
    (list.foldl (fun grace node => grace.start node ticks) grace).remaining[n]? =
      if n ∈ list ∧ ticks ≠ 0 then some ticks else grace.remaining[n]? := by
  induction list generalizing grace with
  | nil => simp
  | cons first rest ih =>
    rw [List.foldl_cons, ih, getElem?_start]
    by_cases hrest : n ∈ rest <;> by_cases hticks : ticks = 0 <;> simp [hrest, hticks]

theorem getElem?_foldl_stop {list : List NodeId} {grace : Grace} {n : NodeId} :
    (list.foldl stop grace).remaining[n]? =
      if n ∈ list then none else grace.remaining[n]? := by
  induction list generalizing grace with
  | nil => simp
  | cons first rest ih =>
    rw [List.foldl_cons, ih]
    unfold stop
    rw [Std.ExtTreeMap.getElem?_erase]
    simp only [Std.compare_eq_iff_eq]
    by_cases hrest : n ∈ rest
    · simp [hrest]
    · simp [hrest, eq_comm]

theorem getElem?_tick {grace : Grace} {n : NodeId} {left : Nat} :
    grace.tick.2.remaining[n]? = some left ↔ left ≠ 0 ∧ grace.remaining[n]? = some (left + 1) := by
  unfold tick
  dsimp only
  rw [Std.ExtTreeMap.getElem?_filter', Std.ExtTreeMap.getElem?_map]
  cases grace.remaining[n]? with
  | none => simp
  | some ticks =>
    show Option.filter _ (some (ticks - 1)) = some left ↔ _
    rw [Option.filter_eq_some_iff, Option.some.injEq, Option.some.injEq, decide_eq_true_eq]
    omega

/-- A period ends with the tick that is its last, as none of no ticks is stored. -/
theorem mem_tick {grace : Grace} {n : NodeId} :
    n ∈ grace.tick.1 ↔ grace.remaining[n]? = some 1 := by
  have hpos := grace.pos n
  unfold tick
  dsimp only
  rw [mem_ofList, Std.ExtTreeMap.mem_keys, mem_iff_exists_getElem?]
  simp only [Std.ExtTreeMap.getElem?_filter', Std.ExtTreeMap.getElem?_map]
  cases hleft : grace.remaining[n]? with
  | none => simp
  | some ticks =>
    have hticks := hpos ticks hleft
    simp
    omega

end Grace

/-! ## An overlay and its history -/

namespace Overlay

/-- What happens to an overlay: it gets a graph, or a tick is counted. -/
inductive Event
  | update (graph : Graph)
  | tick
deriving DecidableEq

/-- The overlay that a node makes of a group. -/
def fresh (group : Address) (self : NodeId) (graceTicks : Nat) : Overlay :=
  { group, self, graceTicks }

def step (o : Overlay) : Event → Overlay
  | .update graph => o.update graph
  | .tick => o.tick.2

/-- The overlay after a history. -/
def run (o : Overlay) (events : List Event) : Overlay :=
  events.foldl step o

theorem run_concat (o : Overlay) (events : List Event) (event : Event) :
    o.run (events ++ [event]) = (o.run events).step event := by
  simp only [run, List.foldl_append, List.foldl_cons, List.foldl_nil]

theorem run_frame (o : Overlay) (events : List Event) :
    (o.run events).self = o.self ∧ (o.run events).graceTicks = o.graceTicks := by
  induction events using List.reverseRecOn with
  | nil => exact ⟨rfl, rfl⟩
  | append_singleton events event ih =>
    rw [run_concat]
    cases event with
    | update graph => exact ih
    | tick => exact ih

/-- A node that is in the new tree has no grace period, one that was in the old tree alone starts
one, and other nodes go on. -/
theorem getElem?_remaining_update (o : Overlay) (graph : Graph) (n : NodeId) :
    (o.update graph).grace.remaining[n]? =
      if n ∈ (treeOver o.self graph).nodes then none
      else if n ∈ o.tree.nodes ∧ o.graceTicks ≠ 0 then some o.graceTicks
      else o.grace.remaining[n]? := by
  have hdeparted : n ∉ (treeOver o.self graph).nodes →
      ((n ∈ o.tree.nodes.filter fun node =>
          node != o.self && !(treeOver o.self graph).contains node) ↔ n ∈ o.tree.nodes) := by
    intro hout
    have hself : n ≠ o.self := fun heq => hout (mem_nodes_treeOver.2 (.inl heq))
    have hcontains : (treeOver o.self graph).contains n = false := by
      rw [← Bool.not_eq_true, SpanningTree.contains_iff]
      exact hout
    rw [mem_filter, hcontains, bne_iff_ne.2 hself]
    exact and_iff_left rfl
  unfold update
  dsimp only
  rw [Std.ExtTreeSet.foldl_eq_foldl_toList, Std.ExtTreeSet.foldl_eq_foldl_toList,
    Grace.getElem?_foldl_stop, Grace.getElem?_foldl_start]
  simp only [Std.ExtTreeSet.mem_toList]
  by_cases hin : n ∈ (treeOver o.self graph).nodes
  · rw [if_pos hin, if_pos hin]
  · simp only [hin, if_false, hdeparted hin]

/-! ### Who is away -/

/-- At some time in its history an overlay got a tree without a node that was in the tree before; no
later tree had the node, and so many ticks were counted since. -/
def Away (o : Overlay) (events : List Event) (node : NodeId) (ticks : Nat) : Prop :=
  ∃ before graph rest, events = before ++ .update graph :: rest
    ∧ node ∈ (o.run before).tree.nodes
    ∧ node ∉ (o.run (before ++ [.update graph])).tree.nodes
    ∧ (∀ later, .update later ∈ rest → node ∉ (treeOver o.self later).nodes)
    ∧ rest.count .tick = ticks

variable {o : Overlay} {events : List Event} {n : NodeId} {ticks : Nat}

theorem tree_run_concat_update (o : Overlay) (events : List Event) (graph : Graph) :
    (o.run (events ++ [.update graph])).tree = treeOver o.self graph := by
  rw [run_concat]
  show treeOver (o.run events).self graph = _
  rw [(o.run_frame events).1]

theorem not_away_nil : ¬Away o [] n ticks := by
  rintro ⟨before, graph, rest, heq, -⟩
  exact List.append_ne_nil_of_right_ne_nil before (List.cons_ne_nil _ rest) heq.symm

/-- With a tree, those are away that it leaves out: from now on if they were in the tree before. -/
theorem away_concat_update {graph : Graph} :
    Away o (events ++ [.update graph]) n ticks ↔
      n ∉ (treeOver o.self graph).nodes
        ∧ (n ∈ (o.run events).tree.nodes ∧ ticks = 0 ∨ Away o events n ticks) := by
  unfold Away
  rw [exists_split_concat, and_or_left]
  refine or_congr ?_ ?_
  · constructor
    · rintro ⟨graph', heq, hin, hout, -, hticks⟩
      cases heq
      rw [tree_run_concat_update] at hout
      exact ⟨hout, hin, hticks.symm⟩
    · rintro ⟨hout, hin, rfl⟩
      rw [← tree_run_concat_update o events] at hout
      exact ⟨graph, rfl, hin, hout, fun _ hlater => absurd hlater List.not_mem_nil, rfl⟩
  · constructor
    · rintro ⟨before, graph', rest, heq, hin, hout, hlater, hticks⟩
      rw [List.count_append] at hticks
      exact ⟨hlater graph (List.mem_append_right _ (List.mem_singleton_self _)), before, graph',
        rest, heq, hin, hout, fun later h => hlater later (List.mem_append_left _ h), hticks⟩
    · rintro ⟨hnew, before, graph', rest, heq, hin, hout, hlater, hticks⟩
      refine ⟨before, graph', rest, heq, hin, hout, ?_, by rw [List.count_append]; exact hticks⟩
      intro later h
      rcases List.mem_append.1 h with h | h
      · exact hlater later h
      · cases List.mem_singleton.1 h
        exact hnew

theorem away_concat_tick :
    Away o (events ++ [.tick]) n ticks ↔ ∃ before, ticks = before + 1 ∧ Away o events n before := by
  unfold Away
  rw [exists_split_concat]
  constructor
  · rintro (⟨graph, heq, -⟩ | ⟨before, graph, rest, heq, hin, hout, hlater, hticks⟩)
    · nomatch heq
    · rw [List.count_append] at hticks
      exact ⟨_, hticks.symm, before, graph, rest, heq, hin, hout,
        fun later h => hlater later (List.mem_append_left _ h), rfl⟩
  · rintro ⟨_, rfl, before, graph, rest, heq, hin, hout, hlater, rfl⟩
    refine .inr ⟨before, graph, rest, heq, hin, hout, ?_, List.count_append⟩
    intro later h
    rcases List.mem_append.1 h with h | h
    · exact hlater later h
    · nomatch List.mem_singleton.1 h

theorem Away.not_mem_tree (h : Away o events n ticks) : n ∉ (o.run events).tree.nodes := by
  induction events using List.reverseRecOn generalizing ticks with
  | nil => exact absurd h not_away_nil
  | append_singleton events event ih =>
    cases event with
    | update graph =>
      rw [tree_run_concat_update]
      exact (away_concat_update.1 h).1
    | tick =>
      obtain ⟨_, -, hbefore⟩ := away_concat_tick.1 h
      rw [run_concat]
      exact ih hbefore

/-- A node is never away from its own overlays. -/
theorem Away.ne_self (h : Away o events n ticks) : n ≠ o.self := by
  obtain ⟨before, graph, -, -, -, hout, -⟩ := h
  rw [tree_run_concat_update] at hout
  exact fun heq => hout (mem_nodes_treeOver.2 (.inl heq))

/-- The ticks that a node has left and those that it has been away make up the grace period. -/
theorem getElem?_remaining_run (hnew : o.grace = .nobody) {left : Nat} :
    (o.run events).grace.remaining[n]? = some left ↔
      0 < left ∧ ∃ ticks, Away o events n ticks ∧ ticks + left = o.graceTicks := by
  induction events using List.reverseRecOn generalizing left with
  | nil =>
    rw [show o.run [] = o from rfl, hnew]
    refine ⟨fun h => ?_, fun ⟨_, _, h, _⟩ => absurd h not_away_nil⟩
    cases (Std.ExtTreeMap.getElem?_empty (a := n)).symm.trans h
  | append_singleton events event ih =>
    rw [run_concat]
    cases event with
    | tick =>
      rw [show ((o.run events).step .tick).grace = (o.run events).grace.tick.2 from rfl,
        Grace.getElem?_tick, ih]
      constructor
      · rintro ⟨hleft, -, ticks, haway, hsum⟩
        exact ⟨by omega, ticks + 1, away_concat_tick.2 ⟨ticks, rfl, haway⟩, by omega⟩
      · rintro ⟨hleft, _, haway, hsum⟩
        obtain ⟨ticks, rfl, hbefore⟩ := away_concat_tick.1 haway
        exact ⟨by omega, by omega, ticks, hbefore, by omega⟩
    | update graph =>
      obtain ⟨hself, hgrace⟩ := o.run_frame events
      show ((o.run events).update graph).grace.remaining[n]? = some left ↔ _
      rw [getElem?_remaining_update, hself, hgrace]
      simp only [away_concat_update]
      by_cases hin : n ∈ (treeOver o.self graph).nodes
      · rw [if_pos hin]
        simp only [hin, not_true, false_and, exists_false, and_false, reduceCtorEq]
      · rw [if_neg hin]
        by_cases hold : n ∈ (o.run events).tree.nodes
        · -- the period starts with this tree, if there is one at all
          have hnot : ∀ ticks, ¬Away o events n ticks := fun ticks haway => haway.not_mem_tree hold
          by_cases hzero : o.graceTicks = 0
          · rw [if_neg (fun h => h.2 hzero), ih]
            simp only [hnot, false_and, exists_false, and_false, false_iff]
            rintro ⟨hleft, ticks, -, hsum⟩
            omega
          · rw [if_pos ⟨hold, hzero⟩, Option.some.injEq]
            constructor
            · rintro rfl
              exact ⟨by omega, 0, ⟨hin, .inl ⟨hold, rfl⟩⟩, Nat.zero_add _⟩
            · rintro ⟨-, ticks, ⟨-, ⟨-, rfl⟩ | haway⟩, hsum⟩
              · omega
              · exact absurd haway (hnot ticks)
        · rw [if_neg (fun h => hold h.1), ih]
          simp only [hin, hold, not_false_eq_true, false_and, false_or, true_and]

/-- Who was in the tree, or in a grace period, still is with the next tree. -/
theorem mem_update {graph : Graph} (h : n ∈ o.grace.nodes ∨ n ∈ o.tree.nodes ∧ 0 < o.graceTicks) :
    n ∈ (o.update graph).grace.nodes ∨ n ∈ (o.update graph).tree.nodes := by
  rw [Grace.mem_nodes, getElem?_remaining_update]
  by_cases hin : n ∈ (treeOver o.self graph).nodes
  · exact .inr hin
  · rw [if_neg hin]
    left
    split
    · exact ⟨_, rfl⟩
    · rename_i hnot
      rcases h with h | ⟨htree, hticks⟩
      · exact Grace.mem_nodes.1 h
      · exact absurd ⟨htree, by omega⟩ hnot

theorem isIdle_iff :
    o.isIdle = true ↔ o.tree.size ≤ 1 ∧ ∀ n : NodeId, o.grace.remaining[n]? = none := by
  unfold isIdle
  rw [Bool.and_eq_true, decide_eq_true_iff, Std.ExtTreeMap.isEmpty_iff]
  refine and_congr_right fun _ => ⟨?_, fun h => ?_⟩
  · intro hempty n
    rw [hempty, Std.ExtTreeMap.getElem?_empty]
  · ext n left
    rw [h, Std.ExtTreeMap.getElem?_empty]

theorem isIdle_eq_false (hgrown : o.tree.Grown)
    (h : n ∈ o.grace.nodes ∨ n ∈ o.tree.nodes ∧ n ≠ o.tree.root) : o.isIdle = false := by
  rw [← Bool.not_eq_true, isIdle_iff]
  rintro ⟨hsize, hnone⟩
  rcases h with h | ⟨htree, hroot⟩
  · obtain ⟨left, hleft⟩ := Grace.mem_nodes.1 h
    cases (hnone n).symm.trans hleft
  · exact hroot (hgrown.eq_root_of_size hsize htree)

end Overlay

/-! ## The overlays of a node -/

namespace Node

/-- Every overlay has a history of graphs and ticks since the node made it. -/
def OverlaysFollow (node : Node) : Prop :=
  ∀ (group : Address) (overlay : Overlay), node.overlays[group]? = some overlay →
    ∃ events, overlay = (Overlay.fresh group node.self node.config.graceTicks).run events

theorem OverlaysFollow.updatedOverlay {node : Node} (h : node.OverlaysFollow) (group : Address) :
    ∃ events, node.updatedOverlay group
      = (Overlay.fresh group node.self node.config.graceTicks).run events := by
  have hbefore : ∃ events, node.overlays[group]?.getD
      (Overlay.fresh group node.self node.config.graceTicks)
        = (Overlay.fresh group node.self node.config.graceTicks).run events := by
    cases hoverlay : node.overlays[group]? with
    | none => exact ⟨[], rfl⟩
    | some overlay => exact h group overlay hoverlay
  obtain ⟨events, hevents⟩ := hbefore
  refine ⟨events ++ [.update (groupGraph node.graph node.groups node.self group)], ?_⟩
  rw [Overlay.run_concat, ← hevents]
  rfl

theorem OverlaysFollow.of_eq {node node' : Node} (h : node.OverlaysFollow)
    (hoverlays : node'.overlays = node.overlays) (hself : node'.self = node.self)
    (hconfig : node'.config = node.config) : node'.OverlaysFollow := by
  unfold OverlaysFollow
  rw [hoverlays, hself, hconfig]
  exact h

theorem OverlaysFollow.perform {node : Node} (h : node.OverlaysFollow) (now : Nat)
    (op : Operation) : (node.perform now op).OverlaysFollow := by
  have hself := (node.grows_perform now op).base.self_eq
  have hconfig := node.config_perform now op
  rcases tablesNoted_perform node now op with hnoted | rfl | rfl
  · exact h.of_eq hnoted.overlays hself hconfig
  · rcases node.recompute_cases now with
      ⟨-, hsame, -⟩ | ⟨-, current, hcurrent, hoverlays, hown, hparams, -⟩
    · exact h.of_eq hsame hself hconfig
    · show (node.recompute now).2.OverlaysFollow
      intro group overlay hoverlay
      rw [hcurrent] at hoverlay ⊢
      rw [eq_updatedOverlay hoverlay]
      exact (h.of_eq hoverlays hown hparams).updatedOverlay group
  · intro group overlay hoverlay
    rw [show (node.perform now .tickGrace).overlays = node.tickGrace.overlays from rfl,
      getElem?_tickGrace, Option.map_eq_some_iff] at hoverlay
    obtain ⟨old, hold, rfl⟩ := hoverlay
    obtain ⟨events, rfl⟩ := h group old hold
    rw [hself, hconfig]
    refine ⟨events ++ [.tick], ?_⟩
    rw [Overlay.run_concat]
    rfl

theorem overlaysFollow_run (address : Address) (config : Config) (since : Nat)
    (ops : List Operation) :
    ((Moment.start address config since).run ops).node.OverlaysFollow := by
  refine Moment.run_induction (P := fun m => m.node.OverlaysFollow) ?_
    (fun m op h => h.perform m.now op) ops
  intro group overlay h
  nomatch h

/-- An overlay of other nodes, or of nodes in a grace period, is there after computing afresh. -/
theorem OverlaysFollow.recompute {node : Node} (h : node.OverlaysFollow) (now : Nat)
    {group : Address} {overlay : Overlay} (hoverlay : node.overlays[group]? = some overlay)
    {n : NodeId} (hn : n ∈ overlay.grace.nodes
      ∨ n ∈ overlay.tree.nodes ∧ n ≠ node.self ∧ 0 < node.config.graceTicks) :
    ∃ overlay', (node.recompute now).2.overlays[group]? = some overlay'
      ∧ (overlay' = overlay ∨ ∃ graph, overlay' = overlay.update graph)
      ∧ (n ∈ overlay'.grace.nodes ∨ n ∈ overlay'.tree.nodes) := by
  rcases node.recompute_cases now with ⟨-, hsame, -⟩ | ⟨-, current, hcurrent, hoverlays, -⟩
  · exact ⟨overlay, hsame ▸ hoverlay, .inl rfl, hn.imp_right And.left⟩
  · obtain ⟨events, hevents⟩ := h group overlay hoverlay
    let graph := groupGraph current.graph current.groups current.self group
    have hupdated : current.updatedOverlay group = overlay.update graph := by
      unfold Node.updatedOverlay
      rw [hoverlays, hoverlay]
      rfl
    obtain ⟨hself, hticks⟩ :=
      (Overlay.fresh group node.self node.config.graceTicks).run_frame events
    rw [← hevents] at hself hticks
    -- the node itself is never in a grace period
    have hother : n ≠ node.self := by
      rcases hn with hn | ⟨-, hne, -⟩
      · obtain ⟨left, hleft⟩ := Grace.mem_nodes.1 hn
        rw [hevents, Overlay.getElem?_remaining_run rfl] at hleft
        obtain ⟨-, _, haway, -⟩ := hleft
        exact haway.ne_self
      · exact hne
    have hmem : n ∈ (overlay.update graph).grace.nodes ∨ n ∈ (overlay.update graph).tree.nodes := by
      apply Overlay.mem_update
      rw [hticks]
      exact hn.imp_right fun ⟨htree, _, hpos⟩ => ⟨htree, hpos⟩
    have hroot : (overlay.update graph).tree.root = node.self :=
      (Overlay.root_treeOver overlay.self graph).trans hself
    have hbusy : (overlay.update graph).isIdle = false :=
      Overlay.isIdle_eq_false (Overlay.built_treeOver _ _).grown
        (hmem.imp_right fun htree => ⟨htree, hroot ▸ hother⟩)
    refine ⟨overlay.update graph, ?_, .inr ⟨graph, rfl⟩, hmem⟩
    rw [hcurrent, getElem?_updateOverlays,
      if_pos (.inr (mem_iff_exists_getElem?.2 ⟨overlay, hoverlays ▸ hoverlay⟩))]
    unfold overlayFor?
    rw [hupdated, hbusy]
    rfl

end Node

/-- **Grace periods last as long as promised.** Whatever graphs an overlay gets, and whenever ticks
are counted, its tree has the nodes of the latest graph; those nodes are in their grace period that
a tree left out and no later tree had, as long as fewer ticks were counted since than there are to
be, and the tick that makes up the number ends it; no tick counts below zero. The overlays of a node
are such overlays, and none that has a node in its grace period, or has just lost one, goes when the
node computes afresh. -/
theorem grace_periods_exact :
    (∀ (group : Address) (self : NodeId) (graceTicks : Nat) (events : List Overlay.Event),
      let fresh := Overlay.fresh group self graceTicks
      let o := fresh.run events
      (∀ graph, (o.update graph).tree.root = self
        ∧ ∀ n, n ∈ (o.update graph).tree.nodes ↔ n = self ∨ n ∈ graph.nodes)
      ∧ (∀ n, n ∈ o.grace.nodes ↔ n ≠ self ∧ ∃ ticks < graceTicks, fresh.Away events n ticks)
      ∧ (∀ n, n ∈ o.tick.1 ↔ n ≠ self ∧ fresh.Away (events ++ [.tick]) n graceTicks)
      ∧ ∀ (n : NodeId) (left : Nat), o.grace.remaining[n]? = some left → 0 < left)
    ∧ ∀ (address : Address) (config : Config) (since : Nat) (ops : List Operation)
        (group : Address) (overlay : Overlay),
      let m := (Moment.start address config since).run ops
      m.node.overlays[group]? = some overlay →
        (∃ events, overlay = (Overlay.fresh group m.node.self config.graceTicks).run events)
        ∧ ∀ n, (n ∈ overlay.grace.nodes
              ∨ n ∈ overlay.tree.nodes ∧ n ≠ m.node.self ∧ 0 < config.graceTicks) →
            ∃ overlay', (m.node.recompute m.now).2.overlays[group]? = some overlay'
              ∧ (overlay' = overlay ∨ ∃ graph, overlay' = overlay.update graph)
              ∧ (n ∈ overlay'.grace.nodes ∨ n ∈ overlay'.tree.nodes) := by
  constructor
  · intro group self graceTicks events fresh o
    have hself : o.self = self := (fresh.run_frame events).1
    have hleft : ∀ (n : NodeId) (left : Nat), o.grace.remaining[n]? = some left ↔
        0 < left ∧ ∃ ticks, fresh.Away events n ticks ∧ ticks + left = graceTicks :=
      fun _ _ => Overlay.getElem?_remaining_run rfl
    refine ⟨?_, ?_, ?_, fun n left h => ((hleft n left).1 h).1⟩
    · intro graph
      rw [← hself]
      exact ⟨Overlay.root_treeOver o.self graph, fun n => Overlay.mem_nodes_treeOver⟩
    · intro n
      rw [Grace.mem_nodes]
      constructor
      · rintro ⟨left, h⟩
        obtain ⟨hpos, ticks, haway, hsum⟩ := (hleft n left).1 h
        exact ⟨haway.ne_self, ticks, by omega, haway⟩
      · rintro ⟨-, ticks, hlt, haway⟩
        exact ⟨graceTicks - ticks, (hleft n _).2 ⟨by omega, ticks, haway, by omega⟩⟩
    · intro n
      rw [Overlay.away_concat_tick, show o.tick.1 = o.grace.tick.1 from rfl, Grace.mem_tick]
      constructor
      · intro h
        obtain ⟨-, ticks, haway, hsum⟩ := (hleft n 1).1 h
        exact ⟨haway.ne_self, ticks, hsum.symm, haway⟩
      · rintro ⟨-, ticks, hticks, haway⟩
        exact (hleft n 1).2 ⟨one_pos, ticks, haway, hticks.symm⟩
  · intro address config since ops group overlay m hoverlay
    have hconfig : m.node.config = config := Node.config_run address config since ops
    have hfollow : m.node.OverlaysFollow := Node.overlaysFollow_run address config since ops
    rw [← hconfig]
    exact ⟨hfollow group overlay hoverlay, fun n hn => hfollow.recompute m.now hoverlay hn⟩

/-- The host of `groupRun` leaves the group, and then its neighbor does. -/
def departureRun (near : Fin 4) : List Operation :=
  groupRun near ++ [.leave lineGroup, .recompute,
    .receivePacket
      { header :=
          { validity := ⟨0xe8⟩, originator := Network.lineAddress near, ttl := 5, hopCount := 0,
            seq := ⟨101⟩ }
        body := .tc { ansn := ⟨2⟩ } }
      (Network.lineAddress near)]

/-- The same, and the host computes afresh. -/
def noticedRun (near : Fin 4) : List Operation :=
  departureRun near ++ [.recompute]

/-- Once the host has noticed, its overlay has the neighbor in a grace period, away for fewer than
three ticks, and computing afresh again does not drop the overlay. -/
theorem grace_periods_exact_departure :
    let m := (Moment.start (Network.lineAddress 0) {} 0).run (noticedRun 1)
    ⟨1⟩ ∈ m.node.graceOf lineGroup
      ∧ (∃ events, ∃ ticks < 3, (Overlay.fresh lineGroup ⟨0⟩ 3).Away events ⟨1⟩ ticks)
      ∧ ∃ overlay, (m.node.recompute m.now).2.overlays[lineGroup]? = some overlay
          ∧ (⟨1⟩ ∈ overlay.grace.nodes ∨ ⟨1⟩ ∈ overlay.tree.nodes) := by
  intro m
  have hgrace : ⟨1⟩ ∈ m.node.graceOf lineGroup := by decide +kernel
  obtain ⟨overlay, hoverlay⟩ : ∃ overlay, m.node.overlays[lineGroup]? = some overlay :=
    Option.isSome_iff_exists.1 (by decide +kernel)
  have hmem : ⟨1⟩ ∈ overlay.grace.nodes := by
    unfold Node.graceOf at hgrace
    rwa [hoverlay] at hgrace
  obtain ⟨⟨events, hevents⟩, hkept⟩ := grace_periods_exact.2 (Network.lineAddress 0) {} 0
    (noticedRun 1) lineGroup overlay hoverlay
  have hself : ((Moment.start (Network.lineAddress 0) {} 0).run (noticedRun 1)).node.self = ⟨0⟩ := by
    decide +kernel
  rw [hself] at hevents
  obtain ⟨-, hspent, -⟩ := grace_periods_exact.1 lineGroup ⟨0⟩ 3 events
  obtain ⟨overlay', hoverlay', -, hmem'⟩ := hkept ⟨1⟩ (.inl hmem)
  rw [hevents] at hmem
  exact ⟨hgrace, ⟨events, ((hspent ⟨1⟩).1 hmem).2⟩, overlay', hoverlay', hmem'⟩

end Meshcast
