import Meshcast.Proofs.GracePeriods

/-!
# Meshcast — overlays that are finished

An overlay is finished when its tree is the node alone and all grace periods are over. Whenever
overlays are brought up to date, finished ones go, unless the node itself is in the group. But it is
a tick that ends the last grace period, and a tick raises no flag: an overlay that a tick finishes
stays until something else makes the node compute afresh, and in a quiet network that is never.

* **`Moment.FinishedUnnoticed`** — a tick finished an overlay and nothing was computed since.
* **`Moment.idle_cases`** — overlays that are finished, but there, are of this kind.
* **`Overlay.Fading`** — an overlay whose last other node left some ticks ago.
* **`Moment.fading_run`** — what becomes of it as long as the group stays empty.
* **`finished_overlays_dropped_iff`** — the result, and **`finished_overlay_stays`** — the overlay
  that is still there after all of its grace periods.
-/

namespace Meshcast

namespace Moment

/-! ## When something is computed -/

/-- Whether more than the relays is computed, if that is asked for at this moment. -/
def computes (m : Moment) : Bool :=
  (m.node.recompute m.now).1

end Moment

/-- Whether an operation counts a tick. -/
def Operation.isTick : Operation → Bool
  | .tickGrace => true
  | _ => false

namespace Moment

/-- Some time in a run, at least so many ticks after its beginning, something was computed. -/
def ComputesAfter (m : Moment) (ops : List Operation) (ticks : Nat) : Prop :=
  ∃ before after, ops = before ++ .recompute :: after
    ∧ (m.run before).computes = true ∧ ticks ≤ before.countP Operation.isTick

/-- Some time in a run a tick finished the overlay of a group, and nothing was computed since. -/
def FinishedUnnoticed (m : Moment) (ops : List Operation) (group : Address) : Prop :=
  ∃ before overlay after, ops = before ++ .tickGrace :: after
    ∧ (m.run before).node.overlays[group]? = some overlay
    ∧ overlay.isIdle = false ∧ overlay.tick.2.isIdle = true
    ∧ ¬(m.run (before ++ [.tickGrace])).ComputesAfter after 0

variable {m : Moment} {ops : List Operation} {op : Operation} {group : Address} {ticks : Nat}

theorem not_computesAfter_nil : ¬m.ComputesAfter [] ticks := by
  rintro ⟨before, after, heq, -⟩
  exact List.append_ne_nil_of_right_ne_nil before (List.cons_ne_nil _ after) heq.symm

theorem computesAfter_concat :
    m.ComputesAfter (ops ++ [op]) ticks ↔
      (op = .recompute ∧ (m.run ops).computes = true ∧ ticks ≤ ops.countP Operation.isTick)
        ∨ m.ComputesAfter ops ticks := by
  unfold ComputesAfter
  simpa only [exists_const] using exists_split_concat (α := Unit) (f := fun _ => .recompute)
    (P := fun before _ _ =>
      (m.run before).computes = true ∧ ticks ≤ before.countP Operation.isTick)

theorem finishedUnnoticed_concat :
    m.FinishedUnnoticed (ops ++ [op]) group ↔
      (op = .tickGrace ∧ ∃ overlay, (m.run ops).node.overlays[group]? = some overlay
          ∧ overlay.isIdle = false ∧ overlay.tick.2.isIdle = true)
        ∨ m.FinishedUnnoticed ops group ∧ ¬(op = .recompute ∧ (m.run ops).computes = true) := by
  unfold FinishedUnnoticed
  rw [exists_split_concat]
  have hrun : ∀ before after, (m.run (before ++ [.tickGrace])).run after
      = m.run (before ++ .tickGrace :: after) := by
    intro before after
    rw [← run_append, List.append_assoc, List.singleton_append]
  refine or_congr ?_ ?_
  · constructor
    · rintro ⟨overlay, rfl, hoverlay, hbusy, hidle, -⟩
      exact ⟨rfl, overlay, hoverlay, hbusy, hidle⟩
    · rintro ⟨rfl, overlay, hoverlay, hbusy, hidle⟩
      exact ⟨overlay, rfl, hoverlay, hbusy, hidle, not_computesAfter_nil⟩
  · constructor
    · rintro ⟨before, overlay, after, rfl, hoverlay, hbusy, hidle, hquiet⟩
      rw [computesAfter_concat, not_or, hrun] at hquiet
      obtain ⟨hlast, hquiet⟩ := hquiet
      exact ⟨⟨before, overlay, after, rfl, hoverlay, hbusy, hidle, hquiet⟩,
        fun ⟨hop, hcomputes⟩ => hlast ⟨hop, hcomputes, Nat.zero_le _⟩⟩
    · rintro ⟨⟨before, overlay, after, rfl, hoverlay, hbusy, hidle, hquiet⟩, hlast⟩
      refine ⟨before, overlay, after, rfl, hoverlay, hbusy, hidle, ?_⟩
      rw [computesAfter_concat, not_or, hrun]
      exact ⟨fun ⟨hop, hcomputes, _⟩ => hlast ⟨hop, hcomputes⟩, hquiet⟩

theorem step_recompute (h : m.computes = true) :
    ∃ current : Node, (m.step .recompute).node = current.updateOverlays
      ∧ current.overlays = m.node.overlays ∧ current.self = m.node.self
      ∧ current.config = m.node.config ∧ current.groups.rows = m.node.groups.rows := by
  rcases m.node.recompute_cases m.now with ⟨hquiet, -⟩ | ⟨-, hcurrent⟩
  · exact absurd (hquiet.symm.trans h) Bool.false_ne_true
  · exact hcurrent

/-- Overlays are ticked or brought up to date, or nothing happens to them and a change of the groups
is noted. -/
theorem overlays_step (m : Moment) (op : Operation) :
    op = .tickGrace ∨ (op = .recompute ∧ m.computes = true)
      ∨ op ≠ .tickGrace ∧ ¬(op = .recompute ∧ m.computes = true)
        ∧ (m.step op).node.overlays = m.node.overlays
        ∧ ((m.step op).node.groups.changed = true
          ∨ m.node.groups.changed = false ∧ m.node.groups.Agrees (m.step op).node.groups) := by
  by_cases htick : op = .tickGrace
  · exact .inl htick
  by_cases hrecompute : op = .recompute
  · subst hrecompute
    rcases m.node.recompute_cases m.now with ⟨hquiet, hsame, hchanged⟩ | ⟨hcomputes, -⟩
    · refine .inr (.inr ⟨htick, fun h => ?_, hsame, .inr ⟨hchanged, ?_⟩⟩)
      · exact Bool.false_ne_true (hquiet.symm.trans h.2)
      · exact .of_rows_eq (m.node.recompute_frame m.now).2.2.2
    · exact .inr (.inl ⟨rfl, hcomputes⟩)
  · have hnoted : Node.TablesNoted m.now m.node (m.step op).node :=
      (m.node.tablesNoted_perform m.now op).resolve_right (not_or.2 ⟨hrecompute, htick⟩)
    refine .inr (.inr ⟨htick, fun h => hrecompute h.1, hnoted.overlays, ?_⟩)
    rcases hnoted.groups with hchanged | ⟨hsame, hagrees⟩
    · exact .inl hchanged
    · rw [hsame]
      cases m.node.groups.changed with
      | true => exact .inl rfl
      | false => exact .inr ⟨rfl, hagrees⟩

end Moment

/-! ## Overlays that are finished -/

theorem Overlay.isIdle_tick {o : Overlay} (h : o.isIdle = true) : o.tick.2.isIdle = true := by
  obtain ⟨hsize, hnone⟩ := isIdle_iff.1 h
  refine isIdle_iff.2 ⟨hsize, fun n => Option.eq_none_iff_forall_ne_some.2 fun left hleft => ?_⟩
  have hbefore : o.grace.remaining[n]? = some (left + 1) := (Grace.getElem?_tick.1 hleft).2
  rw [hnone n] at hbefore
  nomatch hbefore

namespace Node

/-- What is there after overlays were brought up to date is in use. -/
theorem isMember_of_isIdle (node : Node) {group : Address} {overlay : Overlay}
    (h : node.updateOverlays.overlays[group]? = some overlay) (hidle : overlay.isIdle = true) :
    node.groups.isMember node.self group = true := by
  have hupdated := eq_updatedOverlay h
  rw [getElem?_updateOverlays] at h
  unfold overlayFor? at h
  rw [← hupdated, hidle, Bool.true_and] at h
  split at h
  · split at h
    · nomatch h
    · rename_i hmember
      rwa [Bool.not_eq_true', Bool.not_eq_false] at hmember
  · nomatch h

end Node

namespace Moment

variable {m : Moment} {ops : List Operation} {group : Address}

theorem overlays_step_tick (m : Moment) (group : Address) :
    (m.step .tickGrace).node.overlays[group]? =
      m.node.overlays[group]?.map fun (overlay : Overlay) => overlay.tick.2 :=
  m.node.getElem?_tickGrace group

/-- A finished overlay is one of a group that the node is in or, unless a change of the groups waits
to be noticed, one that a tick finished unnoticed. -/
theorem idle_cases (hnone : m.node.overlays = ∅) {overlay : Overlay}
    (h : (m.run ops).node.overlays[group]? = some overlay) (hidle : overlay.isIdle = true) :
    (m.run ops).node.groups.isMember (m.run ops).node.self group = true
      ∨ (m.run ops).node.groups.changed = true ∨ m.FinishedUnnoticed ops group := by
  induction ops using List.reverseRecOn generalizing overlay with
  | nil =>
    rw [show m.run [] = m from rfl, hnone] at h
    nomatch h
  | append_singleton ops op ih =>
    rw [finishedUnnoticed_concat]
    rw [run_concat] at h ⊢
    generalize m.run ops = before at h ih ⊢
    have hself : (before.step op).node.self = before.node.self :=
      (before.node.grows_perform before.now op).base.self_eq
    rcases before.overlays_step op with
      rfl | ⟨rfl, hcomputes⟩ | ⟨-, hquiet, hsame, hgroups⟩
    · rw [overlays_step_tick, Option.map_eq_some_iff] at h
      obtain ⟨old, hold, rfl⟩ := h
      cases hbusy : old.isIdle with
      | false => exact .inr (.inr (.inl ⟨rfl, old, hold, hbusy, hidle⟩))
      | true =>
        refine (ih hold hbusy).imp_right (Or.imp_right fun hfinished => .inr ⟨hfinished, ?_⟩)
        exact fun heq => nomatch heq.1
    · obtain ⟨current, hcurrent, -⟩ := step_recompute hcomputes
      rw [hcurrent] at h ⊢
      exact .inl (current.isMember_of_isIdle h hidle)
    · rcases hgroups with hchanged | ⟨hunchanged, hagrees⟩
      · exact .inr (.inl hchanged)
      · rw [hself, hagrees.isMember_eq]
        rcases ih (hsame ▸ h) hidle with hmember | hchanged | hfinished
        · exact .inl hmember
        · exact absurd (hunchanged.symm.trans hchanged) Bool.false_ne_true
        · exact .inr (.inr (.inr ⟨hfinished, hquiet⟩))

/-- What was finished unnoticed is there, and finished. -/
theorem FinishedUnnoticed.exists_overlay (h : m.FinishedUnnoticed ops group) :
    ∃ overlay, (m.run ops).node.overlays[group]? = some overlay ∧ overlay.isIdle = true := by
  induction ops using List.reverseRecOn with
  | nil =>
    obtain ⟨before, -, after, heq, -⟩ := h
    exact absurd heq.symm (List.append_ne_nil_of_right_ne_nil before (List.cons_ne_nil _ after))
  | append_singleton ops op ih =>
    rw [run_concat]
    rcases finishedUnnoticed_concat.1 h with ⟨rfl, overlay, hoverlay, -, hidle⟩ | ⟨hbefore, hquiet⟩
    · exact ⟨overlay.tick.2, by rw [overlays_step_tick, hoverlay]; rfl, hidle⟩
    · obtain ⟨overlay, hoverlay, hidle⟩ := ih hbefore
      rcases (m.run ops).overlays_step op with rfl | hcomputes | ⟨-, -, hsame, -⟩
      · exact ⟨overlay.tick.2, by rw [overlays_step_tick, hoverlay]; rfl, Overlay.isIdle_tick hidle⟩
      · exact absurd hcomputes hquiet
      · exact ⟨overlay, hsame ▸ hoverlay, hidle⟩

end Moment

/-! ## Groups that lost their last member -/

theorem Groups.isMember_eq_false {g : Groups} {group : Address} (h : group ∉ g.all)
    (node : NodeId) : g.isMember node group = false := by
  rw [← Bool.not_eq_true]
  intro hmember
  exact h (mem_all.2 ⟨node, Std.ExtTreeSet.contains_iff_mem.1 hmember⟩)

namespace Overlay

theorem treeOver_eq_singleton {self : NodeId} {graph : Graph} (h : ∀ x ∈ graph.nodes, x = self) :
    treeOver self graph = .singleton self := by
  have hroot := root_treeOver self graph
  have hgrown := (built_treeOver self graph).grown
  have hsingle := hgrown.eq_singleton fun x hx =>
    ((mem_nodes_treeOver.1 hx).elim id (h x)).trans hroot.symm
  rwa [hroot] at hsingle

/-- An overlay that a node was the last to leave, so many ticks ago: the tree has no other node, and
no grace period lasts longer than that of this node. -/
structure Fading (o : Overlay) (n : NodeId) (ticks : Nat) : Prop where
  ne_self : n ≠ o.self
  tree_eq : o.tree = .singleton o.self
  left : ticks < o.graceTicks → o.grace.remaining[n]? = some (o.graceTicks - ticks)
  ends : ∀ (x : NodeId) (left : Nat), o.grace.remaining[x]? = some left →
    0 < left ∧ ticks + left ≤ o.graceTicks

variable {o : Overlay} {n : NodeId} {ticks : Nat}

theorem Fading.isIdle_iff (h : o.Fading n ticks) : o.isIdle = true ↔ o.graceTicks ≤ ticks := by
  rw [Overlay.isIdle_iff, h.tree_eq]
  constructor
  · rintro ⟨-, hnone⟩
    by_contra hlt
    have hleft := h.left (not_le.1 hlt)
    rw [hnone n] at hleft
    nomatch hleft
  · intro hle
    refine ⟨le_rfl, fun x => Option.eq_none_iff_forall_ne_some.2 fun left hleft => ?_⟩
    have := h.ends x left hleft
    omega

theorem Fading.tick (h : o.Fading n ticks) : o.tick.2.Fading n (ticks + 1) := by
  refine ⟨h.ne_self, h.tree_eq, ?_, ?_⟩
  · intro hlt
    replace hlt : ticks + 1 < o.graceTicks := hlt
    refine Grace.getElem?_tick.2 ⟨?_, (h.left (by omega)).trans (congrArg some ?_)⟩
    · show o.graceTicks - (ticks + 1) ≠ 0
      omega
    · show o.graceTicks - ticks = o.graceTicks - (ticks + 1) + 1
      omega
  · intro x left hleft
    obtain ⟨hpos, hbefore⟩ := Grace.getElem?_tick.1 hleft
    obtain ⟨-, hsum⟩ := h.ends x _ hbefore
    show 0 < left ∧ ticks + 1 + left ≤ o.graceTicks
    omega

/-- The last other node leaves. -/
theorem fading_update {graph : Graph} (hother : n ≠ o.self) (hn : n ∈ o.tree.nodes)
    (hempty : treeOver o.self graph = .singleton o.self)
    (hends : ∀ (x : NodeId) (left : Nat), o.grace.remaining[x]? = some left →
      0 < left ∧ left ≤ o.graceTicks) : (o.update graph).Fading n 0 := by
  have hself : ∀ x, x ∈ (treeOver o.self graph).nodes ↔ x = o.self := by
    intro x
    rw [hempty, SpanningTree.mem_nodes_singleton]
  refine ⟨hother, hempty, ?_, ?_⟩
  · intro hpos
    rw [getElem?_remaining_update, if_neg (mt (hself n).1 hother),
      if_pos ⟨hn, Nat.pos_iff_ne_zero.1 hpos⟩]
    rfl
  · intro x left hleft
    rw [getElem?_remaining_update] at hleft
    show 0 < left ∧ 0 + left ≤ o.graceTicks
    split at hleft
    · cases hleft
    · split at hleft
      · rename_i hstarts
        have := Option.some.inj hleft
        omega
      · have := hends x left hleft
        omega

/-- Graphs in which nobody is change nothing. -/
theorem Fading.update {graph : Graph} (h : o.Fading n ticks)
    (hempty : treeOver o.self graph = .singleton o.self) : (o.update graph).Fading n ticks := by
  have hself : ∀ x, x ∈ (treeOver o.self graph).nodes ↔ x = o.self := by
    intro x
    rw [hempty, SpanningTree.mem_nodes_singleton]
  have hsame : ∀ x, x ≠ o.self →
      (o.update graph).grace.remaining[x]? = o.grace.remaining[x]? := by
    intro x hx
    have hout : x ∉ o.tree.nodes := by
      rw [h.tree_eq, SpanningTree.mem_nodes_singleton]
      exact hx
    rw [getElem?_remaining_update, if_neg (mt (hself x).1 hx), if_neg fun hin => hout hin.1]
  refine ⟨h.ne_self, hempty, fun hlt => (hsame n h.ne_self).trans (h.left hlt), ?_⟩
  intro x left hleft
  by_cases hx : x = o.self
  · rw [getElem?_remaining_update, if_pos ((hself x).2 hx)] at hleft
    cases hleft
  · exact h.ends x left ((hsame x hx).symm.trans hleft)

end Overlay

namespace Node

theorem treeOver_of_not_mem_all (node : Node) (h : node.GraphKnown) {group : Address}
    (hgroup : group ∉ node.groups.all) :
    Overlay.treeOver node.self (groupGraph node.graph node.groups node.self group)
      = .singleton node.self := by
  obtain ⟨symmetric, arcs, topology, hgraph⟩ := h
  apply Overlay.treeOver_eq_singleton
  intro x hx
  unfold groupGraph at hx
  rw [hgraph, Graph.mem_nodes_contract coherent_knownGraph, mem_insert] at hx
  rcases hx.2 with rfl | hmember
  · rfl
  · exact absurd (Groups.mem_all.2 ⟨x, Groups.mem_members.1 hmember⟩) hgroup

/-- The overlays of a run are the node's own, and their grace periods are those of its parameters. -/
theorem overlay_run {address : Address} {config : Config} {since : Nat} {ops : List Operation}
    {group : Address} {overlay : Overlay}
    (h : ((Moment.start address config since).run ops).node.overlays[group]? = some overlay) :
    overlay.self = ((Moment.start address config since).run ops).node.self
      ∧ overlay.graceTicks = config.graceTicks
      ∧ ∀ (x : NodeId) (left : Nat), overlay.grace.remaining[x]? = some left →
          0 < left ∧ left ≤ overlay.graceTicks := by
  obtain ⟨events, rfl⟩ := overlaysFollow_run address config since ops group overlay h
  rw [config_run]
  obtain ⟨hself, hticks⟩ := (Overlay.fresh group
    ((Moment.start address config since).run ops).node.self config.graceTicks).run_frame events
  refine ⟨hself, hticks, fun x left hleft => ?_⟩
  obtain ⟨hpos, ticks, -, hsum⟩ := (Overlay.getElem?_remaining_run rfl).1 hleft
  rw [hticks]
  exact ⟨hpos, hsum ▸ Nat.le_add_left _ _⟩

end Node

namespace Moment

variable {m : Moment} {group : Address}

/-- While a group has no members, it gets no overlay. -/
theorem overlays_step_of_none (hgroup : group ∉ m.node.groups.all)
    (hnone : m.node.overlays[group]? = none) (op : Operation) :
    (m.step op).node.overlays[group]? = none := by
  rcases m.overlays_step op with rfl | ⟨rfl, hcomputes⟩ | ⟨-, -, hsame, -⟩
  · rw [overlays_step_tick, hnone]
    rfl
  · obtain ⟨current, hcurrent, hoverlays, -, -, hrows⟩ := step_recompute hcomputes
    rw [hcurrent, Node.getElem?_updateOverlays, if_neg]
    rintro (hall | hthere)
    · rw [(Groups.Agrees.of_rows_eq hrows).all_eq] at hall
      exact hgroup hall
    · rw [hoverlays, Std.ExtTreeMap.mem_iff_isSome_getElem?, hnone] at hthere
      nomatch hthere
  · rw [hsame]
    exact hnone

/-- While a group has no members, bringing its overlay up to date drops it if that finishes it. -/
theorem overlays_step_recompute (hcomputes : m.computes = true)
    (hknown : (m.step .recompute).node.GraphKnown) (hgroup : group ∉ m.node.groups.all)
    {overlay : Overlay} (h : m.node.overlays[group]? = some overlay)
    (hself : overlay.self = m.node.self) :
    ∃ graph, Overlay.treeOver overlay.self graph = .singleton overlay.self
      ∧ (m.step .recompute).node.overlays[group]?
        = if (overlay.update graph).isIdle then none else some (overlay.update graph) := by
  obtain ⟨current, hcurrent, hoverlays, hown, -, hrows⟩ := step_recompute hcomputes
  rw [hcurrent] at hknown ⊢
  have hgroup' : group ∉ current.groups.all := by
    rwa [(Groups.Agrees.of_rows_eq hrows).all_eq]
  have htree := current.treeOver_of_not_mem_all hknown hgroup'
  have hupdated : current.updatedOverlay group
      = overlay.update (groupGraph current.graph current.groups current.self group) := by
    unfold Node.updatedOverlay
    rw [hoverlays, h]
    rfl
  refine ⟨groupGraph current.graph current.groups current.self group, ?_, ?_⟩
  · rw [hself, ← hown]
    exact htree
  · rw [Node.getElem?_updateOverlays,
      if_pos (.inr (mem_iff_exists_getElem?.2 ⟨overlay, hoverlays ▸ h⟩))]
    unfold Node.overlayFor?
    rw [hupdated, Groups.isMember_eq_false hgroup', Bool.not_false, Bool.and_true]

/-- While a group has no members, its overlay goes if overlays are brought up to date after the last
grace period; else it goes on fading. -/
theorem fading_step (hgroup : group ∉ m.node.groups.all)
    (hknown : (m.step .recompute).node.GraphKnown) {overlay : Overlay}
    (hoverlay : m.node.overlays[group]? = some overlay) (hself : overlay.self = m.node.self)
    {n : NodeId} {ticks : Nat} (h : overlay.Fading n ticks) (op : Operation) :
    ((m.step op).node.overlays[group]? = none ↔
        op = .recompute ∧ m.computes = true ∧ overlay.graceTicks ≤ ticks)
      ∧ ∀ overlay', (m.step op).node.overlays[group]? = some overlay' →
          overlay'.Fading n (ticks + [op].countP Operation.isTick) := by
  rcases m.overlays_step op with rfl | ⟨rfl, hcomputes⟩ | ⟨htick, hquiet, hsame, -⟩
  · rw [overlays_step_tick, hoverlay]
    constructor
    · exact iff_of_false (Option.some_ne_none _) fun hop => nomatch hop.1
    · rintro _ ⟨⟩
      exact h.tick
  · obtain ⟨graph, halone, hafter⟩ :=
      overlays_step_recompute hcomputes hknown hgroup hoverlay hself
    have hupdated : (overlay.update graph).Fading n ticks := h.update halone
    have hidle : (overlay.update graph).isIdle = true ↔ overlay.graceTicks ≤ ticks :=
      hupdated.isIdle_iff
    rw [hafter]
    constructor
    · rw [← hidle, hcomputes]
      cases (overlay.update graph).isIdle <;> simp
    · intro overlay' hoverlay'
      split at hoverlay'
      · nomatch hoverlay'
      · cases hoverlay'
        exact hupdated
  · have hcount : [op].countP Operation.isTick = 0 := by
      cases op with
      | tickGrace => exact absurd rfl htick
      | _ => rfl
    rw [hsame, hoverlay, hcount]
    constructor
    · exact iff_of_false (Option.some_ne_none _) fun hop => hquiet ⟨hop.1, hop.2.1⟩
    · rintro _ ⟨⟩
      exact h

/-- What becomes of an overlay that a node was the last to leave, as long as nobody is in the group:
it goes with the first computation after its grace periods, if there is one. -/
theorem fading_run {address : Address} {config : Config} {since : Nat} {ops : List Operation}
    {n : NodeId} (hm : (start address config since).run ops = m)
    (hfading : ∀ overlay, m.node.overlays[group]? = some overlay → overlay.Fading n 0)
    (hthere : m.node.overlays[group]? = none ↔ config.graceTicks = 0) {rest : List Operation}
    (hempty : ∀ before, before <+: rest → group ∉ (m.run before).node.groups.all) :
    ((m.run rest).node.overlays[group]? = none ↔
        config.graceTicks = 0 ∨ m.ComputesAfter rest config.graceTicks)
      ∧ ∀ overlay, (m.run rest).node.overlays[group]? = some overlay →
          overlay.Fading n (rest.countP Operation.isTick) := by
  induction rest using List.reverseRecOn with
  | nil =>
    refine ⟨hthere.trans ?_, hfading⟩
    rw [or_iff_left not_computesAfter_nil]
  | append_singleton rest op ih =>
    obtain ⟨hgone, hbefore⟩ := ih fun before h => hempty before (h.trans (List.prefix_append _ _))
    have hgroup : group ∉ (m.run rest).node.groups.all := hempty rest (List.prefix_append _ _)
    rw [computesAfter_concat, run_concat, List.countP_append]
    cases hoverlay : (m.run rest).node.overlays[group]? with
    | none =>
      rw [overlays_step_of_none hgroup hoverlay op]
      constructor
      · exact iff_of_true rfl ((hgone.1 hoverlay).imp_right .inr)
      · exact fun _ h => nomatch h
    | some overlay =>
      have hstays : ¬(config.graceTicks = 0 ∨ m.ComputesAfter rest config.graceTicks) := by
        rw [← hgone, hoverlay]
        exact Option.some_ne_none overlay
      have hrun : (start address config since).run (ops ++ rest) = m.run rest := by
        rw [run_append, hm]
      have hknown : ((m.run rest).step .recompute).node.GraphKnown := by
        rw [← hrun, ← run_concat]
        exact Node.graphKnown_run address config since _
      obtain ⟨hself, hticks, -⟩ := Node.overlay_run (by rw [hrun]; exact hoverlay)
      rw [hrun] at hself
      obtain ⟨hdropped, hfades⟩ :=
        fading_step hgroup hknown hoverlay hself (hbefore overlay hoverlay) op
      refine ⟨hdropped.trans ?_, hfades⟩
      rw [hticks]
      constructor
      · exact fun h => .inr (.inl h)
      · rintro (h | h | h)
        · exact absurd (.inl h) hstays
        · exact h
        · exact absurd (.inr h) hstays

/-- If the tree of a group without members has another node, this change is still to be noticed. -/
theorem computes_of_departure {address : Address} {config : Config} {since : Nat}
    {ops : List Operation} (hm : (start address config since).run ops = m)
    (hgroup : group ∉ (m.step .recompute).node.groups.all) {overlay : Overlay}
    (hoverlay : m.node.overlays[group]? = some overlay) {n : NodeId} (hn : n ∈ overlay.tree.nodes)
    (hother : n ≠ m.node.self) : m.computes = true := by
  rcases m.node.recompute_cases m.now with ⟨-, hsame, -⟩ | ⟨hcomputes, -⟩
  · have hupToDate : (m.step .recompute).node.UpToDate m.now := by
      subst hm
      exact Node.upToDate_recompute (Node.upToDate_run address config since ops)
    have hknown : (m.step .recompute).node.GraphKnown := by
      rw [← hm, ← run_concat]
      exact Node.graphKnown_run address config since _
    have hself : (m.step .recompute).node.self = m.node.self :=
      (m.node.grows_perform m.now .recompute).base.self_eq
    have hflags : (m.step .recompute).node.flags = ⟨false, false, false, false⟩ :=
      m.node.flags_recompute m.now
    obtain ⟨hcurrent, -⟩ := hupToDate.overlays (congrArg ChangeFlags.neighbors hflags)
      (congrArg ChangeFlags.topology hflags) (congrArg ChangeFlags.groups hflags)
    -- had nothing been computed, the tree would be current, and the node alone
    obtain ⟨hgraph, htree⟩ := hcurrent group overlay (hsame ▸ hoverlay)
    rw [hgraph, Node.treeOver_of_not_mem_all _ hknown hgroup, hself] at htree
    rw [htree, SpanningTree.mem_nodes_singleton] at hn
    exact absurd hn hother
  · exact hcomputes

/-- The last other node has left a group: the overlay goes if there are no grace periods, and else
it starts to fade. -/
theorem fading_departure {address : Address} {config : Config} {since : Nat}
    {ops : List Operation} (hm : (start address config since).run ops = m)
    (hgroup : group ∉ (m.step .recompute).node.groups.all) {overlay : Overlay}
    (hoverlay : m.node.overlays[group]? = some overlay) {n : NodeId} (hn : n ∈ overlay.tree.nodes)
    (hother : n ≠ m.node.self) :
    ((m.step .recompute).node.overlays[group]? = none ↔ config.graceTicks = 0)
      ∧ ∀ overlay', (m.step .recompute).node.overlays[group]? = some overlay' →
          overlay'.Fading n 0 := by
  have hcomputes := computes_of_departure hm hgroup hoverlay hn hother
  have hknown : (m.step .recompute).node.GraphKnown := by
    rw [← hm, ← run_concat]
    exact Node.graphKnown_run address config since _
  have hgroup' : group ∉ m.node.groups.all := by
    have hagrees : m.node.groups.Agrees (m.step .recompute).node.groups :=
      .of_rows_eq (m.node.recompute_frame m.now).2.2.2
    rwa [← hagrees.all_eq]
  obtain ⟨hself, hticks, hends⟩ := Node.overlay_run (by rw [hm]; exact hoverlay)
  rw [hm] at hself
  obtain ⟨graph, halone, hafter⟩ :=
    overlays_step_recompute hcomputes hknown hgroup' hoverlay hself
  have hfades : (overlay.update graph).Fading n 0 :=
    Overlay.fading_update (hself ▸ hother) hn halone hends
  have hidle : (overlay.update graph).isIdle = true ↔ config.graceTicks = 0 := by
    rw [hfades.isIdle_iff, ← hticks]
    exact Nat.le_zero
  rw [hafter]
  constructor
  · rw [← hidle]
    cases (overlay.update graph).isIdle <;> simp
  · intro overlay' hoverlay'
    split at hoverlay'
    · nomatch hoverlay'
    · cases hoverlay'
      exact hfades

end Moment

/-- **Finished overlays go if something is computed.** Right after a node computed afresh, all its
overlays are in use, unless a tick finished one of them and nothing was computed since. So once the
last other node has left a group, and as long as the group stays empty, the overlay goes at once if
there is no grace period, and else with the first computation after as many ticks as there are to
be. The ticks alone do not make it go. -/
theorem finished_overlays_dropped_iff (address : Address) (config : Config) (since : Nat)
    (ops : List Operation) :
    let m := (Moment.start address config since).run ops
    let m' := m.step .recompute
    ((∀ (group : Address) (overlay : Overlay), m'.node.overlays[group]? = some overlay →
        overlay.isIdle = false ∨ m'.node.groups.isMember m'.node.self group = true)
      ↔ ∀ group, (Moment.start address config since).FinishedUnnoticed (ops ++ [.recompute]) group →
          m'.node.groups.isMember m'.node.self group = true)
    ∧ ∀ (group : Address) (rest : List Operation),
        (∃ n ∈ (m.node.treeOf group).nodes, n ≠ m.node.self) →
        (∀ before, before <+: rest → group ∉ (m'.run before).node.groups.all) →
        (group ∉ (m'.run rest).node.overlays ↔
          config.graceTicks = 0 ∨ m'.ComputesAfter rest config.graceTicks) := by
  intro m m'
  have hm' : (Moment.start address config since).run (ops ++ [.recompute]) = m' :=
    Moment.run_concat _ _ _
  have hflags : m'.node.flags = ⟨false, false, false, false⟩ := m.node.flags_recompute m.now
  have hgroups : m'.node.groups.changed = false := congrArg ChangeFlags.groups hflags
  constructor
  · constructor
    · intro hlaw group hfinished
      obtain ⟨overlay, hoverlay, hidle⟩ := hfinished.exists_overlay
      rw [hm'] at hoverlay
      exact (hlaw group overlay hoverlay).resolve_left fun hbusy => by
        rw [hbusy] at hidle
        nomatch hidle
    · intro hnoticed group overlay hoverlay
      cases hidle : overlay.isIdle with
      | false => exact .inl rfl
      | true =>
        rw [← hm'] at hoverlay
        right
        rcases Moment.idle_cases rfl hoverlay hidle with hmember | hchanged | hfinished
        · rwa [hm'] at hmember
        · rw [hm', hgroups] at hchanged
          nomatch hchanged
        · exact hnoticed group hfinished
  · rintro group rest ⟨n, hn, hother⟩ hempty
    unfold Node.treeOf at hn
    cases hoverlay : m.node.overlays[group]? with
    | none =>
      rw [hoverlay] at hn
      exact absurd (SpanningTree.mem_nodes_singleton.1 hn) hother
    | some overlay =>
      rw [hoverlay] at hn
      obtain ⟨hthere, hfading⟩ :=
        Moment.fading_departure rfl (hempty [] List.nil_prefix) hoverlay hn hother
      rw [Std.ExtTreeMap.mem_iff_isSome_getElem?, Option.not_isSome_iff_eq_none]
      exact (Moment.fading_run hm' hfading hthere hempty).1

/-! ## A host whose neighbor left -/

/-- A round of maintenance as a node has it again and again. -/
def maintenance : List Operation :=
  [.sweep, .recompute, .tickGrace]

/-- The neighbor of a host left a group that the host itself is not in. Four rounds of maintenance
later the three ticks of its grace period are over, and yet another round later the overlay is still
there, although it is finished. -/
theorem finished_overlay_stays :
    let m := ((Moment.start (Network.lineAddress 0) {} 0).run (noticedRun 1)).run
      ((List.replicate 4 maintenance).flatten ++ [.sweep, .recompute])
    lineGroup ∉ m.node.groups.all
      ∧ m.node.groups.isMember m.node.self lineGroup = false
      ∧ m.node.overlays[lineGroup]?.map Overlay.isIdle = some true := by
  decide +kernel

/-- Four rounds later the host joins another group, and then the next computation drops the overlay
that is finished. -/
def eventfulRounds : List Operation :=
  (List.replicate 4 maintenance).flatten ++ [.join ⟨0xe0000002⟩, .sweep, .recompute]

theorem finished_overlays_dropped_join :
    lineGroup ∉ ((((Moment.start (Network.lineAddress 0) {} 0).run (departureRun 1)).step
      .recompute).run eventfulRounds).node.overlays := by
  have hempty : ∀ before ∈ eventfulRounds.inits,
      lineGroup ∉ ((((Moment.start (Network.lineAddress 0) {} 0).run (departureRun 1)).step
        .recompute).run before).node.groups.all := by
    decide +kernel
  refine ((finished_overlays_dropped_iff (Network.lineAddress 0) {} 0 (departureRun 1)).2 lineGroup
    eventfulRounds ⟨⟨1⟩, by decide +kernel, by decide +kernel⟩
    fun before h => hempty before (List.mem_inits before _ |>.2 h)).2 (.inr ?_)
  exact ⟨(List.replicate 4 maintenance).flatten ++ [.join ⟨0xe0000002⟩, .sweep], [], rfl,
    by decide +kernel, by decide⟩

end Meshcast
