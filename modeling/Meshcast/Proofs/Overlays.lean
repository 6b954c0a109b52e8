import Meshcast.Proofs.Cascade
import Meshcast.Proofs.Identity
import Meshcast.Proofs.Maintenance

/-!
# Meshcast — nodes relay along trees that were built

Cascades are about participants that use any tree that is ever built. A node is one of them: after
every run each of its overlays has such a tree, so whatever the node answers to a data message
starts a cascade that serves those that the node owes the message to.

* **`Node.OverlaysBuilt`** — the invariant of all runs.
* **`Node.relays_run`** — after every run a node relays as cascades have it.
-/

namespace Meshcast

namespace Node

/-- Every overlay has a tree that was built. -/
def OverlaysBuilt (node : Node) : Prop :=
  ∀ (group : Address) (overlay : Overlay), node.overlays[group]? = some overlay →
    overlay.tree.Built

theorem overlaysBuilt_updateOverlays (node : Node) : node.updateOverlays.OverlaysBuilt := by
  intro group overlay h
  rw [eq_updatedOverlay h]
  exact Overlay.built_treeOver _ _

theorem OverlaysBuilt.perform {node : Node} (h : node.OverlaysBuilt) (now : ℕ) (op : Operation) :
    (node.perform now op).OverlaysBuilt := by
  rcases tablesNoted_perform node now op with hnoted | rfl | rfl
  · unfold OverlaysBuilt
    rw [hnoted.overlays]
    exact h
  · -- the overlays are brought up to date, or nothing happens to them
    show (node.recompute now).2.OverlaysBuilt
    rcases node.recompute_cases now with ⟨-, hsame, -⟩ | ⟨-, current, hcurrent, -⟩
    · unfold OverlaysBuilt
      rw [hsame]
      exact h
    · rw [hcurrent]
      exact current.overlaysBuilt_updateOverlays
  · intro group overlay hoverlay
    rw [show (node.perform now .tickGrace).overlays = node.tickGrace.overlays from rfl,
      getElem?_tickGrace, Option.map_eq_some_iff] at hoverlay
    obtain ⟨old, hold, rfl⟩ := hoverlay
    exact h group old hold

theorem OverlaysBuilt.treeOf {node : Node} (h : node.OverlaysBuilt) (group : Address) :
    (node.treeOf group).Built := by
  unfold Node.treeOf
  split
  · rename_i overlay hoverlay
    exact h group overlay hoverlay
  · exact .singleton node.self

/-- Whatever happened to a node, it relays a message along a tree that was built. -/
theorem relays_run (address : Address) (config : Config) (since : ℕ) (ops : List Operation)
    (message : DataMessage) :
    Relays address message
      (((Moment.start address config since).run ops).node.relay message).1 := by
  have hbuilt : ((Moment.start address config since).run ops).node.OverlaysBuilt := by
    refine Moment.run_induction (P := fun m => m.node.OverlaysBuilt) ?_
      (fun m op h => h.perform m.now op) ops
    intro group overlay h
    nomatch h
  refine ⟨_, _, _, ?_, hbuilt.treeOf message.group, rfl⟩
  rw [← Registry.lookup?_eq_some_iff]
  exact lookup?_address_run rfl

end Node

end Meshcast
