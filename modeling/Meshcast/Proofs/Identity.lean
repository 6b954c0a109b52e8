import Meshcast.Proofs.ChangeFlags
import Meshcast.Proofs.Registry
import Meshcast.Proofs.Runs

/-!
# Meshcast — who is who in the course of a run

In the course of a run a node comes to know ever more participants. It keeps the identifiers it
handed out, its own among them, and it never takes for a neighbor itself or somebody it does not
know.

* **`InformationBase.Grows`**, **`Node.Grows`** — what no operation touches, and what an operation
  may add.
* **`grows_perform`**, **`grows_run`** — all operations and all runs are such growth.
* **`Node.HasRelay`**, **`Node.HasSelector`** — relays and selectors, told apart by their addresses.
* **`lookup?_address_run`**, **`neighbor_run`** — what follows for a node that was switched on at
  some time.
-/

namespace Meshcast

/-! ## Tables of neighbors -/

namespace Neighborhood

theorem self_commit (n : Neighborhood) (tx : Transaction NodeId Neighbor) :
    (n.commit tx).self = n.self := by
  unfold commit
  split <;> rfl

theorem mem_of_mem_sweep {n : Neighborhood} {now : Nat} {id : NodeId}
    (h : id ∈ (n.sweep now).2.table.slots) : id ∈ n.table.slots := by
  unfold sweep at h
  rw [table_commit] at h
  exact Std.ExtTreeMap.mem_of_mem_filter h

theorem mem_of_mem_markRelays {n : Neighborhood} {now : Nat} {relays : NodeSet} {id : NodeId}
    (h : id ∈ (n.markRelays now relays).2.table.slots) : id ∈ n.table.slots :=
  Std.ExtTreeMap.mem_map.1 h

theorem mem_of_isSymmetric {n : Neighborhood} {now : Nat} {id : NodeId}
    (h : n.isSymmetric now id = true) : id ∈ n.table.slots := by
  unfold isSymmetric get? at h
  rw [Option.any_eq_true] at h
  obtain ⟨entry, hentry, -⟩ := h
  obtain ⟨slot, hslot, -, -⟩ := ExpiringTable.get?_eq_some_iff.1 hentry
  exact Std.ExtTreeMap.mem_iff_isSome_getElem?.2 (by rw [hslot]; rfl)

end Neighborhood

namespace InformationBase

/-- From `base` to `base'` everybody kept their identifier, and whoever became a neighbor is known
and not the node itself. -/
structure Grows (base base' : InformationBase) : Prop where
  registry : base.registry.Extends base'.registry
  self_eq : base'.self = base.self
  neighbors : ∀ id ∈ base'.neighbors.table.slots, id ∈ base.neighbors.table.slots
    ∨ id ≠ base.self ∧ ∃ a, base'.registry.address? id = some a

theorem Grows.trans {base₁ base₂ base₃ : InformationBase} (h₁ : Grows base₁ base₂)
    (h₂ : Grows base₂ base₃) : Grows base₁ base₃ := by
  refine ⟨h₁.registry.trans h₂.registry, h₂.self_eq.trans h₁.self_eq, ?_⟩
  intro id hid
  rcases h₂.neighbors id hid with hold | ⟨hne, hknown⟩
  · rcases h₁.neighbors id hold with hold | ⟨hne, a, ha⟩
    · exact .inl hold
    · exact .inr ⟨hne, a, h₂.registry.address? ha⟩
  · exact .inr ⟨h₁.self_eq ▸ hne, hknown⟩

theorem Grows.of_registry {base : InformationBase} {registry : Registry}
    (h : base.registry.Extends registry) : Grows base { base with registry } :=
  ⟨h, rfl, fun _ hid => .inl hid⟩

theorem grows_recordNeighbor (base : InformationBase) {sender : NodeId} {a : Address}
    (now : Nat) (report : HelloReport) (lifetime : Nat) (hne : sender ≠ base.self)
    (ha : base.registry.address? sender = some a) :
    Grows base (base.recordNeighbor now sender report lifetime).2 := by
  refine ⟨.refl _, Neighborhood.self_commit _ _, ?_⟩
  intro id hid
  rw [slots_recordNeighbor, Std.ExtTreeMap.mem_insert, Std.compare_eq_iff_eq] at hid
  rcases hid with rfl | hid
  · exact .inr ⟨hne, a, ha⟩
  · exact .inl hid

/-- A greeting makes known whom it lists and at most its sender a neighbor. -/
theorem grows_applyHello (base : InformationBase) (now : Nat) (source : Address) (hello : Hello)
    (validity : ValidityTime) : Grows base (base.applyHello now source hello validity).2 := by
  have hsource : Grows base (base.intern source).2 := .of_registry (base.registry.extends_intern _)
  unfold applyHello
  dsimp only
  split
  · exact hsource
  · rename_i hne
    -- the listed participants, then the sender's entry; the selectors have no part in it
    let listed := (base.intern source).2.registry.internAll hello.listings.unzip.2
    have hlisted : Grows (base.intern source).2
        { (base.intern source).2 with registry := listed.2 } :=
      .of_registry (Registry.extends_internAll _ _)
    have hknown : listed.2.address? (base.intern source).1 = some source := by
      refine (Registry.extends_internAll _ hello.listings.unzip.2).address? ?_
      show (base.registry.intern source).2.address? (base.registry.intern source).1 = some source
      rw [← Registry.lookup?_eq_some_iff, Registry.lookup?_intern, if_pos rfl]
    have hrecorded := grows_recordNeighbor { (base.intern source).2 with registry := listed.2 } now
      (.ofListings (base.intern source).2.self (base.intern source).1 hello.listings.unzip.1
        listed.1) validity.millis hne hknown
    exact hsource.trans (hlisted.trans ⟨hrecorded.registry, hrecorded.self_eq, hrecorded.neighbors⟩)

/-- An announcement makes known whom it lists; it makes nobody a neighbor or a selector. -/
theorem applyTc_frame (base : InformationBase) (now : Nat) (originator sender : Address) (tc : Tc)
    (validity : ValidityTime) :
    base.registry.Extends (base.applyTc now originator sender tc validity).2.registry
      ∧ (base.applyTc now originator sender tc validity).2.neighbors = base.neighbors
      ∧ (base.applyTc now originator sender tc validity).2.selectors = base.selectors := by
  have hregistry : base.registry.Extends ((base.registry.intern originator).2.internAll
      tc.advertised.toList).2 :=
    (base.registry.extends_intern originator).trans (Registry.extends_internAll _ _)
  unfold applyTc
  split
  · dsimp only
    split
    · exact ⟨hregistry, rfl, rfl⟩
    · exact ⟨hregistry, rfl, rfl⟩
  · exact ⟨.refl _, rfl, rfl⟩

theorem grows_applyTc (base : InformationBase) (now : Nat) (originator sender : Address) (tc : Tc)
    (validity : ValidityTime) : Grows base (base.applyTc now originator sender tc validity).2 := by
  obtain ⟨hregistry, hneighbors, -⟩ := base.applyTc_frame now originator sender tc validity
  refine ⟨hregistry, congrArg Neighborhood.self hneighbors, ?_⟩
  intro id hid
  rw [hneighbors] at hid
  exact .inl hid

end InformationBase

/-! ## Operations -/

namespace Node

/-- Growth of what is known, while the node's address and its hold time stay. -/
structure Grows (node node' : Node) : Prop where
  base : InformationBase.Grows node.toInformationBase node'.toInformationBase
  address_eq : node'.address = node.address
  holdTime_eq : node'.duplicates.holdTime = node.duplicates.holdTime

theorem Grows.trans {node₁ node₂ node₃ : Node} (h₁ : Grows node₁ node₂) (h₂ : Grows node₂ node₃) :
    Grows node₁ node₃ :=
  ⟨h₁.base.trans h₂.base, h₂.address_eq.trans h₁.address_eq, h₂.holdTime_eq.trans h₁.holdTime_eq⟩

theorem Grows.of_eq {node node' : Node} (hregistry : node.registry.Extends node'.registry)
    (hself : node'.self = node.self)
    (hneighbors : ∀ id ∈ node'.neighbors.table.slots, id ∈ node.neighbors.table.slots)
    (haddress : node'.address = node.address)
    (hholdTime : node'.duplicates.holdTime = node.duplicates.holdTime) : Grows node node' :=
  ⟨⟨hregistry, hself, fun id hid => .inl (hneighbors id hid)⟩, haddress, hholdTime⟩

theorem Grows.refl (node : Node) : Grows node node :=
  .of_eq (.refl _) rfl (fun _ h => h) rfl rfl

theorem grows_forward (node : Node) (now : Nat) (id : MessageId) (packet : Packet)
    (neighbor : Address) : Grows node (node.forward now id packet neighbor).2 := by
  unfold forward
  split
  · exact .refl node
  · exact .of_eq (.refl _) rfl (fun _ h => h) rfl rfl

theorem grows_receivePacket (node : Node) (now : Nat) (packet : Packet) (neighbor : Address) :
    Grows node (node.receivePacket now packet neighbor).2 := by
  have horiginator : Grows node
      { node with registry := (node.registry.intern packet.header.originator).2 } :=
    .of_eq (node.registry.extends_intern _) rfl (fun _ h => h) rfl rfl
  unfold receivePacket
  split
  · exact .refl node
  · dsimp only
    split
    · split
      · exact horiginator
      · exact horiginator.trans ⟨InformationBase.grows_applyHello _ now neighbor _ _, rfl, rfl⟩
    · refine .trans ?_ (grows_forward _ now _ packet neighbor)
      split
      · exact horiginator
      · exact horiginator.trans
          ⟨InformationBase.grows_applyTc _ now packet.header.originator neighbor _ _, rfl, rfl⟩

theorem grows_updateRelays (node : Node) (now : Nat) : Grows node (node.updateRelays now) := by
  unfold updateRelays
  dsimp only
  split
  · exact .of_eq (.refl _) rfl (fun _ => Neighborhood.mem_of_mem_markRelays) rfl rfl
  · exact .refl node

theorem grows_recompute (node : Node) (now : Nat) : Grows node (node.recompute now).2 := by
  refine (grows_updateRelays node now).trans ?_
  unfold recompute
  dsimp only
  split
  · exact .of_eq (.refl _) rfl (fun _ h => h) rfl rfl
  · split
    · exact .of_eq (.refl _) rfl (fun _ h => h) rfl rfl
    · exact .of_eq (.refl _) rfl (fun _ h => h) rfl rfl

theorem grows_relay (node : Node) (message : DataMessage) :
    Grows node (node.relay message).2 := by
  refine .of_eq ?_ rfl (fun _ h => h) rfl rfl
  show node.registry.Extends
    (Forwarding.relay node.registry node.self (node.treeOf message.group) message).2
  unfold Forwarding.relay
  split
  · exact .refl _
  · exact Registry.extends_internAll _ _

theorem grows_perform (node : Node) (now : Nat) (op : Operation) :
    Grows node (node.perform now op) := by
  cases op with
  | receiveControl bytes neighbor =>
    unfold perform receiveControl
    dsimp only
    split
    · exact grows_receivePacket node now _ neighbor
    · exact .refl node
  | receivePacket packet neighbor => exact grows_receivePacket node now packet neighbor
  | makeHello => exact .of_eq (.refl _) rfl (fun _ h => h) rfl rfl
  | makeTc => exact .of_eq (.refl _) rfl (fun _ h => h) rfl rfl
  | sweep =>
    exact .of_eq (.refl _) (Neighborhood.self_commit _ _)
      (fun _ => Neighborhood.mem_of_mem_sweep) rfl rfl
  | recompute => exact grows_recompute node now
  | tickGrace => exact .of_eq (.refl _) rfl (fun _ h => h) rfl rfl
  | join group => exact .of_eq (.refl _) rfl (fun _ h => h) rfl rfl
  | leave group => exact .of_eq (.refl _) rfl (fun _ h => h) rfl rfl
  | send group payload => exact .of_eq (.refl _) rfl (fun _ h => h) rfl rfl
  | receiveData bytes =>
    unfold perform
    dsimp only
    split
    · exact grows_relay node _
    · exact .refl node
  | receiveMessage message => exact grows_relay node message
  | registerAll view =>
    exact .of_eq (node.registry.extends_internAll view) rfl (fun _ h => h) rfl rfl
  | setBandwidth participant bandwidth =>
    exact .of_eq
      ((node.registry.extends_intern participant).trans (Registry.extends_setBandwidth _ _ _))
      rfl (fun _ h => h) rfl rfl
  | advance ms => exact .refl node

theorem grows_run (address : Address) (config : Config) (since : Nat) (ops : List Operation) :
    Grows (.start address config) ((Moment.start address config since).run ops).node :=
  Moment.run_induction (P := fun m => Grows (.start address config) m.node) (.refl _)
    (fun m op h => h.trans (grows_perform m.node m.now op)) ops

/-! ## Relays and selectors by their addresses -/

/-- A node has a host with some address relay its floods. -/
def HasRelay (node : Node) (a : Address) : Prop :=
  ∃ id, node.registry.lookup? a = some id ∧ id ∈ node.relays.members

/-- An address is that of a selector of a node. -/
def HasSelector (node : Node) (a : Address) : Prop :=
  ∃ id, node.registry.lookup? a = some id ∧ id ∈ node.selectors.members

/-! ## A node after a run -/

section Run

variable {address : Address} {config : Config} {since : Nat} {ops : List Operation} {node : Node}
  (h : ((Moment.start address config since).run ops).node = node)

include h

theorem address_run : node.address = address := by
  subst h
  exact (grows_run address config since ops).address_eq

theorem holdTime_run : node.duplicates.holdTime = config.duplicateHoldTime := by
  subst h
  exact (grows_run address config since ops).holdTime_eq

theorem lookup?_address_run : node.registry.lookup? address = some node.self := by
  subst h
  have hgrows := (grows_run address config since ops).base
  rw [hgrows.self_eq]
  apply hgrows.registry
  show (Registry.empty.intern address).2.lookup? address = some (Registry.empty.intern address).1
  rw [Registry.lookup?_intern, if_pos rfl]

/-- Whoever has an entry among the neighbors is known and not the node itself. -/
theorem neighbor_run {id : NodeId} (hid : id ∈ node.neighbors.table.slots) :
    id ≠ node.self ∧ ∃ a, node.registry.address? id = some a := by
  subst h
  have hgrows := (grows_run address config since ops).base
  rcases hgrows.neighbors id hid with hnone | ⟨hne, hknown⟩
  · exact absurd hnone Std.ExtTreeMap.not_mem_empty
  · exact ⟨hgrows.self_eq ▸ hne, hknown⟩

theorem isSymmetricNeighbor_address_run (now : Nat) :
    node.isSymmetricNeighbor now address = false := by
  rw [← Bool.not_eq_true]
  intro hsymmetric
  unfold InformationBase.isSymmetricNeighbor at hsymmetric
  rw [lookup?_address_run h, Option.any_some] at hsymmetric
  exact (neighbor_run h (Neighborhood.mem_of_isSymmetric hsymmetric)).1 rfl

end Run

end Node

end Meshcast
