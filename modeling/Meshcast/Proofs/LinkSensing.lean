import Meshcast.Proofs.ControlPackets
import Meshcast.Proofs.Greetings
import Meshcast.Proofs.Maintenance

/-!
# Meshcast — a neighbor is what it said last

The table of neighbors is edited in many ways: every greeting changes an entry and prunes the
selectors, the choice of relays relabels entries in place, sweeps drop the dead ones. All the same,
what a node knows of a neighbor is a function of the last greeting that it heard from it.

* **`Node.greetingOf?`**, **`Moment.lastHeard?`** — which greetings a node takes note of, and the
  last one of each sender in the course of a run.
* **`Node.Recalls`** — the invariant: every entry says what its owner said last, and there is an
  entry for whatever greeting is still valid.
* **`Node.Retains`**, **`retains_perform`** — what all operations do that are no greetings;
  **`Recalls.retains`** and **`Recalls.heard`** — both keep the invariant.
* **`neighbor_as_last_heard`** — the result.
-/

namespace Meshcast

/-! ## What a node remembers -/

/-- What each sender said last. -/
abbrev Memory := Address → Option Heard

namespace Node

/-- The greeting that a packet from a neighbor has the node take note of. Packets of its own,
packets that are said to come from itself and packets that it has seen are not handled. -/
def heardFrom? (node : Node) (now : Nat) (packet : Packet) (neighbor : Address) : Option Heard :=
  match packet.body with
  | .hello hello =>
    if packet.header.originator = node.address ∨ neighbor = node.address
        ∨ node.hasSeen now packet = true then none
    else some { time := now, hello, validity := packet.header.validity }
  | .tc _ => none

theorem heardFrom?_hello {node : Node} {now : Nat} {packet : Packet} {neighbor : Address}
    {hello : Hello} (hbody : packet.body = .hello hello)
    (hforeign : packet.header.originator ≠ node.address) (hother : neighbor ≠ node.address)
    (hfresh : node.hasSeen now packet = false) :
    node.heardFrom? now packet neighbor
      = some { time := now, hello, validity := packet.header.validity } := by
  unfold heardFrom?
  rw [hbody]
  dsimp only
  rw [if_neg (by simp [hforeign, hother, hfresh])]

/-- The greeting that an operation has the node take note of, and who sent it. -/
def greetingOf? (node : Node) (now : Nat) : Operation → Option (Address × Heard)
  | .receivePacket packet neighbor => (node.heardFrom? now packet neighbor).map (neighbor, ·)
  | .receiveControl bytes neighbor =>
    match Packet.decode bytes with
    | .ok packet => (node.heardFrom? now packet neighbor).map (neighbor, ·)
    | .error _ => none
  | _ => none

end Node

def Memory.noting (memory : Memory) : Option (Address × Heard) → Memory
  | some (sender, g) => fun a => if a = sender then some g else memory a
  | none => memory

theorem Memory.noting_self (memory : Memory) (sender : Address) (g : Heard) :
    memory.noting (some (sender, g)) sender = some g :=
  if_pos rfl

theorem Memory.noting_of_ne (memory : Memory) {sender a : Address} (g : Heard) (h : a ≠ sender) :
    memory.noting (some (sender, g)) a = memory a :=
  if_neg h

namespace Node

/-- Every entry says what its owner said last, and whatever is still valid has an entry. -/
structure Recalls (node : Node) (memory : Memory) (now : Nat) : Prop where
  self_known : node.registry.lookup? node.address = some node.self
  known : ∀ a g, memory a = some g → ∃ id, node.registry.lookup? a = some id
  entry : ∀ (id : NodeId) (slot : Slot Neighbor), node.neighbors.table.slots[id]? = some slot →
    ∃ a g, node.registry.address? id = some a ∧ memory a = some g
      ∧ g.Conveys node.registry node.address a slot
      ∧ (slot.isLive now = true →
        (id ∈ node.selectors.members ↔ g.Confirms node.address ∧ g.Chooses node.address))
  valid : ∀ a g id, memory a = some g → now < g.deadline → node.registry.lookup? a = some id →
    id ∈ node.neighbors.table.slots

/-- Any entry of a participant conveys its last greeting. -/
theorem Recalls.conveys {node : Node} {memory : Memory} {now : Nat} (h : node.Recalls memory now)
    {a : Address} {g : Heard} {id : NodeId} {slot : Slot Neighbor} (hg : memory a = some g)
    (hid : node.registry.lookup? a = some id)
    (hslot : node.neighbors.table.slots[id]? = some slot) :
    g.Conveys node.registry node.address a slot
      ∧ (slot.isLive now = true →
        (id ∈ node.selectors.members ↔ g.Confirms node.address ∧ g.Chooses node.address)) := by
  obtain ⟨b, g', hb, hg', hrest⟩ := h.entry id slot hslot
  rw [(Registry.lookup?_eq_some_iff _ _ _).1 hid, Option.some.injEq] at hb
  subst hb
  rw [hg, Option.some.injEq] at hg'
  subst hg'
  exact hrest

/-! ## Operations that teach nothing about neighbors -/

/-- From `node` to `node'` entries were at most relabelled or dropped when dead, and no selector was
lost that is a symmetric neighbor. -/
structure Retains (now : Nat) (node node' : Node) : Prop where
  entry : ∀ (id : NodeId) (slot' : Slot Neighbor), node'.neighbors.table.slots[id]? = some slot' →
    ∃ slot : Slot Neighbor, node.neighbors.table.slots[id]? = some slot
      ∧ slot'.expiresAt = slot.expiresAt
      ∧ slot'.value.isSymmetric = slot.value.isSymmetric ∧ slot'.value.twoHop = slot.value.twoHop
  live : ∀ (id : NodeId) (slot : Slot Neighbor), node.neighbors.table.slots[id]? = some slot →
    slot.isLive now = true → id ∈ node'.neighbors.table.slots
  selectors : ∀ id ∈ node'.selectors.members, id ∈ node.selectors.members
  kept : ∀ id ∈ node.selectors.members, id ∈ node'.neighbors.symmetric now →
    id ∈ node'.selectors.members

theorem Retains.of_eq {now : Nat} {node node' : Node}
    (hslots : node'.neighbors.table.slots = node.neighbors.table.slots)
    (hselectors : node'.selectors.members = node.selectors.members) : Retains now node node' where
  entry id slot' h := ⟨slot', hslots ▸ h, rfl, rfl, rfl⟩
  live id slot h _ := by
    rw [hslots, mem_iff_exists_getElem?]
    exact ⟨slot, h⟩
  selectors id h := hselectors ▸ h
  kept id h _ := hselectors ▸ h

theorem Recalls.retains {node node' : Node} {memory : Memory} {now : Nat}
    (h : node.Recalls memory now) (hgrows : Grows node node') (hr : Retains now node node') :
    node'.Recalls memory now where
  self_known := by
    rw [hgrows.address_eq, hgrows.base.self_eq]
    exact hgrows.base.registry _ _ h.self_known
  known a g hg := by
    obtain ⟨id, hid⟩ := h.known a g hg
    exact ⟨id, hgrows.base.registry a id hid⟩
  entry id slot' hslot' := by
    obtain ⟨slot, hslot, hexpiresAt, hsymmetric, htwoHop⟩ := hr.entry id slot' hslot'
    obtain ⟨a, g, ha, hg, hconveys, hselectors⟩ := h.entry id slot hslot
    have hconveys' := hconveys.retained hgrows.base.registry hexpiresAt hsymmetric htwoHop
    rw [← hgrows.address_eq] at hconveys' hselectors
    refine ⟨a, g, hgrows.base.registry.address? ha, hg, hconveys', ?_⟩
    intro hlive
    have hlive' : slot.isLive now = true := by
      unfold Slot.isLive at hlive ⊢
      rwa [← hexpiresAt]
    rw [← hselectors hlive']
    refine ⟨hr.selectors id, fun hmem => hr.kept id hmem ?_⟩
    rw [Neighborhood.mem_symmetric]
    exact ⟨slot'.value, ExpiringTable.get?_eq_some_iff.2 ⟨slot', hslot', hlive, rfl⟩,
      hconveys'.symmetric.2 ((hselectors hlive').1 hmem).1⟩
  valid a g id hg hvalid hid := by
    obtain ⟨old, hold⟩ := h.known a g hg
    have heq : old = id := by
      have := hgrows.base.registry a old hold
      rw [hid] at this
      exact (Option.some.inj this).symm
    subst heq
    obtain ⟨slot, hslot⟩ := mem_iff_exists_getElem?.1 (h.valid a g old hg hvalid hold)
    exact hr.live old slot hslot ((h.conveys hg hold hslot).1.isLive_iff.2 hvalid)

theorem selectors_sweep (node : Node) (now : Nat) :
    (node.sweep now).2.selectors.members =
      prune node.selectors.members ((node.sweep now).2.neighbors.symmetric now) :=
  Selectors.members_update _ _

theorem slots_sweep (node : Node) (now : Nat) :
    (node.sweep now).2.neighbors.table.slots =
      node.neighbors.table.slots.filter fun _ slot => slot.isLive now := by
  show (node.neighbors.commit _).table.slots = _
  rw [Neighborhood.table_commit]
  rfl

theorem retains_sweep (node : Node) (now : Nat) : Retains now node (node.sweep now).2 := by
  have hslots := node.slots_sweep now
  refine ⟨?_, ?_, ?_, ?_⟩
  · intro id slot h
    rw [hslots, Std.ExtTreeMap.getElem?_filter', Option.filter_eq_some_iff] at h
    exact ⟨slot, h.1, rfl, rfl, rfl⟩
  · intro id slot h hlive
    rw [hslots, Std.ExtTreeMap.mem_iff_isSome_getElem?, Std.ExtTreeMap.getElem?_filter', h]
    simp [Option.filter, hlive]
  · intro id h
    rw [selectors_sweep, mem_prune] at h
    exact h.1
  · intro id h hsymmetric
    rw [selectors_sweep, mem_prune]
    exact ⟨h, hsymmetric⟩

theorem retains_recompute (node : Node) (now : Nat) : Retains now node (node.recompute now).2 := by
  obtain ⟨hselectors, htable⟩ := node.recompute_neighbors now
  have hrelays : (node.updateRelays now).neighbors.table = node.neighbors.table
      ∨ ∃ relays : NodeSet, (node.updateRelays now).neighbors.table.slots =
        node.neighbors.table.slots.map fun id slot =>
          if slot.isLive now then { slot with value :=
            { slot.value with status := Neighborhood.statusUnder relays id slot.value } }
          else slot := by
    unfold updateRelays
    dsimp only
    split
    · exact .inr ⟨_, rfl⟩
    · exact .inl rfl
  rcases hrelays with hsame | ⟨relays, hmarked⟩
  · exact .of_eq (by rw [htable, hsame]) (by rw [hselectors])
  · refine ⟨?_, ?_, ?_, ?_⟩
    · intro id slot' h
      rw [htable, hmarked, Std.ExtTreeMap.getElem?_map, Option.map_eq_some_iff] at h
      obtain ⟨slot, hslot, rfl⟩ := h
      refine ⟨slot, hslot, ?_⟩
      split
      · exact ⟨rfl, Neighborhood.isSymmetric_statusUnder relays id slot.value, rfl⟩
      · exact ⟨rfl, rfl, rfl⟩
    · intro id slot h _
      rw [htable, hmarked, Std.ExtTreeMap.mem_map, mem_iff_exists_getElem?]
      exact ⟨slot, h⟩
    · intro id h
      rwa [hselectors] at h
    · intro id h _
      rwa [hselectors]

theorem retains_receivePacket {node : Node} {now : Nat} {packet : Packet} {neighbor : Address}
    (h : node.heardFrom? now packet neighbor = none) :
    Retains now node (node.receivePacket now packet neighbor).2 := by
  have hreceived := node.received_receivePacket now packet neighbor
  generalize (node.receivePacket now packet neighbor).2 = node' at hreceived ⊢
  cases hreceived with
  | own => exact .of_eq rfl rfl
  | repeated => exact .of_eq rfl rfl
  | greeted hello hbody horiginator hneighbor hfresh =>
    -- the greeting would have been heard
    unfold heardFrom? at h
    simp [hbody, horiginator, hneighbor, hfresh] at h
  | announced tc sent base duplicates _ _ _ hhandled =>
    exact .of_eq (by rw [hhandled.neighbors]) (by rw [hhandled.selectors])

theorem retains_relay (node : Node) (now : Nat) (message : DataMessage) :
    Retains now node (node.relay message).2 :=
  .of_eq rfl rfl

/-! ## Greetings that are taken note of -/

/-- A greeting that is taken note of is learned from. -/
theorem toInformationBase_receivePacket {node : Node} {now : Nat} {packet : Packet}
    {neighbor : Address} {g : Heard} (h : node.heardFrom? now packet neighbor = some g) :
    neighbor ≠ node.address ∧ g.time = now
      ∧ (node.receivePacket now packet neighbor).2.toInformationBase =
        ((node.acquainted packet).applyHello now neighbor g.hello g.validity).2 := by
  unfold heardFrom? at h
  split at h
  · rename_i hello hbody
    split at h
    · nomatch h
    · rename_i hheard
      simp only [not_or, Bool.not_eq_true] at hheard
      obtain ⟨horiginator, hneighbor, hseen⟩ := hheard
      cases h
      refine ⟨hneighbor, rfl, ?_⟩
      rw [receivePacket_hello now hbody horiginator hneighbor, hseen, if_neg Bool.false_ne_true]
      rfl
  · nomatch h

theorem helloTaken_receivePacket {node : Node} {now : Nat} {packet : Packet} {neighbor : Address}
    {g : Heard} (hself : node.registry.lookup? node.address = some node.self)
    (h : node.heardFrom? now packet neighbor = some g) :
    ∃ id slot, (node.acquainted packet).HelloTaken g node.address neighbor id slot
      (node.receivePacket now packet neighbor).2.toInformationBase := by
  obtain ⟨hneighbor, htime, happly⟩ := toInformationBase_receivePacket h
  obtain ⟨time, hello, validity⟩ := g
  subst htime
  rw [happly]
  exact InformationBase.helloTaken_applyHello _ hello validity
    (node.registry.extends_intern _ _ _ hself) hneighbor

theorem Recalls.heard {node : Node} {memory : Memory} {now : Nat} {packet : Packet}
    {neighbor : Address} {g : Heard} (h : node.Recalls memory now)
    (hheard : node.heardFrom? now packet neighbor = some g) :
    (node.receivePacket now packet neighbor).2.Recalls (memory.noting (some (neighbor, g)))
      now := by
  obtain ⟨-, htime, -⟩ := toInformationBase_receivePacket hheard
  obtain ⟨id, slot, htaken⟩ := helloTaken_receivePacket h.self_known hheard
  have hgrows := grows_receivePacket node now packet neighbor
  generalize (node.receivePacket now packet neighbor).2 = node' at htaken hgrows
  have hregistry : node.registry.Extends node'.registry := hgrows.base.registry
  have hslots : ∀ other : NodeId, node'.neighbors.table.slots[other]? =
      if id = other then some slot else node.neighbors.table.slots[other]? :=
    htaken.getElem?_slots
  have hsource : node'.registry.address? id = some neighbor :=
    (Registry.lookup?_eq_some_iff _ _ _).1 htaken.lookup?_source
  have hsymmetric : ∀ other (entry : Slot Neighbor),
      node'.neighbors.table.slots[other]? = some entry → entry.isLive now = true →
        (other ∈ node'.neighbors.symmetric g.time ↔ entry.value.isSymmetric = true) := by
    intro other entry hentry hlive
    rw [htime, Neighborhood.mem_symmetric]
    have hget : node'.neighbors.get? now other = some entry.value :=
      ExpiringTable.get?_eq_some_iff.2 ⟨entry, hentry, hlive, rfl⟩
    simp [hget]
  refine ⟨?_, ?_, ?_, ?_⟩
  · rw [hgrows.address_eq, hgrows.base.self_eq]
    exact hregistry _ _ h.self_known
  · intro a g' hg'
    by_cases ha : a = neighbor
    · exact ⟨id, ha ▸ htaken.lookup?_source⟩
    · rw [memory.noting_of_ne g ha] at hg'
      obtain ⟨old, hold⟩ := h.known a g' hg'
      exact ⟨old, hregistry a old hold⟩
  · intro other entry hentry
    have hentry' := hentry
    rw [hslots] at hentry'
    split at hentry'
    · rename_i heq
      subst heq
      cases hentry'
      refine ⟨neighbor, g, hsource, memory.noting_self neighbor g,
        hgrows.address_eq ▸ htaken.conveys, ?_⟩
      intro hlive
      rw [htaken.mem_selectors, if_pos rfl, hsymmetric id slot hentry hlive,
        htaken.conveys.symmetric, hgrows.address_eq, and_comm]
    · rename_i hne
      obtain ⟨a, g', ha, hg', hconveys, hselectors⟩ := h.entry other entry hentry'
      have hane : a ≠ neighbor := by
        rintro rfl
        exact hne (Registry.address?_injective hsource (hregistry.address? ha))
      have hconveys' := hconveys.retained hregistry rfl rfl rfl
      rw [← hgrows.address_eq] at hconveys' hselectors
      refine ⟨a, g', hregistry.address? ha, (memory.noting_of_ne g hane).trans hg', hconveys', ?_⟩
      intro hlive
      rw [htaken.mem_selectors, if_neg (Ne.symm hne), hsymmetric other entry hentry hlive,
        hconveys'.symmetric]
      show other ∈ node.selectors.members ∧ _ ↔ _
      rw [hselectors hlive]
      exact ⟨fun hboth => hboth.1, fun hboth => ⟨hboth, hboth.1⟩⟩
  · intro a g' found hg' hvalid hfound
    rw [Std.ExtTreeMap.mem_iff_isSome_getElem?, hslots]
    by_cases ha : a = neighbor
    · subst ha
      rw [htaken.lookup?_source, Option.some.injEq] at hfound
      rw [if_pos hfound]
      rfl
    · rw [memory.noting_of_ne g ha] at hg'
      obtain ⟨old, hold⟩ := h.known a g' hg'
      have heq : old = found := by
        have := hregistry a old hold
        rw [hfound] at this
        exact (Option.some.inj this).symm
      subst heq
      split
      · rfl
      · exact Std.ExtTreeMap.mem_iff_isSome_getElem?.1 (h.valid a g' old hg' hvalid hold)

theorem exists_of_greetingOf? {node : Node} {now : Nat} {op : Operation} {sender : Address}
    {g : Heard} (h : node.greetingOf? now op = some (sender, g)) :
    ∃ packet, node.heardFrom? now packet sender = some g
      ∧ node.perform now op = (node.receivePacket now packet sender).2 := by
  have hpacket : ∀ packet neighbor,
      (node.heardFrom? now packet neighbor).map (neighbor, ·) = some (sender, g) →
        neighbor = sender ∧ node.heardFrom? now packet neighbor = some g := by
    intro packet neighbor hmap
    obtain ⟨g', hheard, heq⟩ := Option.map_eq_some_iff.1 hmap
    obtain ⟨rfl, rfl⟩ := Prod.mk.inj heq
    exact ⟨rfl, hheard⟩
  cases op with
  | receiveControl bytes neighbor =>
    unfold greetingOf? at h
    unfold perform receiveControl
    dsimp only at h ⊢
    cases hdecode : Packet.decode bytes with
    | ok packet =>
      rw [hdecode] at h
      obtain ⟨rfl, hheard⟩ := hpacket packet neighbor h
      exact ⟨packet, hheard, rfl⟩
    | error cause =>
      rw [hdecode] at h
      nomatch h
  | receivePacket packet neighbor =>
    obtain ⟨rfl, hheard⟩ := hpacket packet neighbor h
    exact ⟨packet, hheard, rfl⟩
  | _ => nomatch h

/-- What teaches nothing about neighbors retains what is known of them. -/
theorem retains_perform {node : Node} {now : Nat} {op : Operation}
    (h : node.greetingOf? now op = none) : Retains now node (node.perform now op) := by
  cases op with
  | receiveControl bytes neighbor =>
    unfold greetingOf? at h
    unfold perform receiveControl
    dsimp only at h ⊢
    cases hdecode : Packet.decode bytes with
    | ok packet =>
      rw [hdecode] at h
      exact retains_receivePacket (Option.map_eq_none_iff.1 h)
    | error cause => exact .of_eq rfl rfl
  | receivePacket packet neighbor => exact retains_receivePacket (Option.map_eq_none_iff.1 h)
  | sweep => exact retains_sweep node now
  | recompute => exact retains_recompute node now
  | receiveData bytes =>
    unfold perform
    dsimp only
    split
    · exact retains_relay node now _
    · exact .of_eq rfl rfl
  | receiveMessage message => exact retains_relay node now message
  | _ => exact .of_eq rfl rfl

theorem Recalls.perform {node : Node} {memory : Memory} {now : Nat} (h : node.Recalls memory now)
    (op : Operation) :
    (node.perform now op).Recalls (memory.noting (node.greetingOf? now op)) now := by
  cases hgreeting : node.greetingOf? now op with
  | none => exact h.retains (grows_perform node now op) (retains_perform hgreeting)
  | some heard =>
    obtain ⟨packet, hheard, hperform⟩ := exists_of_greetingOf? hgreeting
    rw [hperform]
    exact h.heard hheard

theorem Recalls.of_le {node : Node} {memory : Memory} {now later : Nat}
    (h : node.Recalls memory now) (hle : now ≤ later) : node.Recalls memory later where
  self_known := h.self_known
  known := h.known
  entry id slot hslot := by
    obtain ⟨a, g, ha, hg, hconveys, hselectors⟩ := h.entry id slot hslot
    refine ⟨a, g, ha, hg, hconveys, fun hlive => hselectors ?_⟩
    simp only [Slot.isLive, decide_eq_true_eq] at hlive ⊢
    omega
  valid a g id hg hvalid := h.valid a g id hg (by omega)

/-- Whoever greeted not too long ago has a live entry. -/
theorem Recalls.exists_slot {node : Node} {memory : Memory} {now : Nat}
    (h : node.Recalls memory now) {a : Address} {g : Heard} (hg : memory a = some g)
    (hvalid : now < g.deadline) :
    ∃ id slot, node.registry.lookup? a = some id ∧ node.neighbors.table.slots[id]? = some slot
      ∧ slot.isLive now = true ∧ g.Conveys node.registry node.address a slot
      ∧ (id ∈ node.selectors.members ↔ g.Confirms node.address ∧ g.Chooses node.address) := by
  obtain ⟨id, hid⟩ := h.known a g hg
  obtain ⟨slot, hslot⟩ := mem_iff_exists_getElem?.1 (h.valid a g id hg hvalid hid)
  obtain ⟨hconveys, hselectors⟩ := h.conveys hg hid hslot
  have hlive := hconveys.isLive_iff.2 hvalid
  exact ⟨id, slot, hid, hslot, hlive, hconveys, hselectors hlive⟩

/-- Whoever has a live entry greeted not too long ago. -/
theorem Recalls.exists_heard {node : Node} {memory : Memory} {now : Nat}
    (h : node.Recalls memory now) {id : NodeId} {entry : Neighbor}
    (hget : node.neighbors.get? now id = some entry) :
    ∃ a g slot, node.registry.lookup? a = some id ∧ memory a = some g ∧ now < g.deadline
      ∧ slot.value = entry ∧ g.Conveys node.registry node.address a slot := by
  obtain ⟨slot, hslot, hlive, hvalue⟩ := ExpiringTable.get?_eq_some_iff.1 hget
  obtain ⟨a, g, ha, hg, hconveys, -⟩ := h.entry id slot hslot
  exact ⟨a, g, slot, (Registry.lookup?_eq_some_iff _ _ _).2 ha, hg, hconveys.isLive_iff.1 hlive,
    hvalue, hconveys⟩

theorem recalls_start (address : Address) (config : Config) (now : Nat) :
    (Node.start address config).Recalls (fun _ => none) now where
  self_known := by
    show (Registry.empty.intern address).2.lookup? address = some (Registry.empty.intern address).1
    rw [Registry.lookup?_intern, if_pos rfl]
  known _ _ h := by nomatch h
  entry _ _ h := by nomatch h
  valid _ _ _ h := by nomatch h

end Node

/-! ## Runs -/

namespace Moment

/-- What is remembered after a sequence of operations. -/
def memoryAfter (m : Moment) (memory : Memory) : List Operation → Memory
  | [] => memory
  | op :: rest => (m.step op).memoryAfter (memory.noting (m.node.greetingOf? m.now op)) rest

/-- The last greeting of a sender that a node took note of in a sequence of operations. -/
def lastHeard? (m : Moment) (ops : List Operation) (sender : Address) : Option Heard :=
  m.memoryAfter (fun _ => none) ops sender

theorem recalls_memoryAfter {m : Moment} {memory : Memory} (h : m.node.Recalls memory m.now)
    (ops : List Operation) :
    (m.run ops).node.Recalls (m.memoryAfter memory ops) (m.run ops).now := by
  induction ops generalizing m memory with
  | nil => exact h
  | cons op rest ih => exact ih ((h.perform op).of_le (Nat.le_add_right _ _))

end Moment

/-- **A neighbor is what it said last.** After every run, what a node knows of another one is
determined by the last greeting that it took note of from it. The sender is a live neighbor exactly
until the validity of the greeting is over. While it is, it is taken to report those that the
greeting lists as symmetric neighbors, save the node itself and the sender; it is symmetric exactly
if the greatest code under which it lists the node confirms the link and does not give it up; and it
is a selector exactly if it is symmetric and that code calls the node a relay. Who never greeted has
no entry at all. -/
theorem neighbor_as_last_heard (address : Address) (config : Config) (since : Nat)
    (ops : List Operation) (sender : Address) :
    let m := (Moment.start address config since).run ops
    match (Moment.start address config since).lastHeard? ops sender with
    | none =>
      ∀ id, m.node.registry.lookup? sender = some id → id ∉ m.node.neighbors.table.slots
    | some g => ∃ id, m.node.registry.lookup? sender = some id
      ∧ ((m.node.neighbors.get? m.now id).isSome = true ↔ m.now < g.time + g.validity.millis)
      ∧ ∀ entry, m.node.neighbors.get? m.now id = some entry →
        (∀ t ∈ entry.twoHop, ∃ a, m.node.registry.address? t = some a)
        ∧ (∀ a, (∃ t ∈ entry.twoHop, m.node.registry.address? t = some a) ↔
            (∃ code, a ∈ g.hello.listedUnder code ∧ code.neighbor ≠ .notNeighbor)
              ∧ a ≠ address ∧ a ≠ sender)
        ∧ (entry.isSymmetric = true ↔ ∃ code, g.hello.GreatestCode address code
            ∧ code.link ≠ .lost ∧ code.confirmsLink = true)
        ∧ (id ∈ m.node.selectors.members ↔ entry.isSymmetric = true
            ∧ ∃ code, g.hello.GreatestCode address code ∧ code.neighbor = .relay) := by
  intro m
  have haddress : m.node.address = address := Node.address_run rfl
  have hrecalls : m.node.Recalls ((Moment.start address config since).lastHeard? ops) m.now :=
    Moment.recalls_memoryAfter (Node.recalls_start address config since) ops
  split
  · rename_i hnone
    intro id hid hmem
    obtain ⟨slot, hslot⟩ := mem_iff_exists_getElem?.1 hmem
    obtain ⟨a, g, ha, hg, -⟩ := hrecalls.entry id slot hslot
    rw [(Registry.lookup?_eq_some_iff _ _ _).1 hid, Option.some.injEq] at ha
    subst ha
    rw [hnone] at hg
    nomatch hg
  · rename_i g hg
    obtain ⟨id, hid⟩ := hrecalls.known sender g hg
    refine ⟨id, hid, ?_, ?_⟩
    · rw [Option.isSome_iff_exists]
      constructor
      · rintro ⟨entry, hget⟩
        obtain ⟨slot, hslot, hlive, -⟩ := ExpiringTable.get?_eq_some_iff.1 hget
        exact (hrecalls.conveys hg hid hslot).1.isLive_iff.1 hlive
      · intro hvalid
        obtain ⟨id', slot, hid', hslot, hlive, -⟩ := hrecalls.exists_slot hg hvalid
        rw [hid, Option.some.injEq] at hid'
        subst hid'
        exact ⟨slot.value, ExpiringTable.get?_eq_some_iff.2 ⟨slot, hslot, hlive, rfl⟩⟩
    · intro entry hget
      obtain ⟨slot, hslot, hlive, rfl⟩ := ExpiringTable.get?_eq_some_iff.1 hget
      obtain ⟨hconveys, hselectors⟩ := hrecalls.conveys hg hid hslot
      rw [haddress] at hconveys hselectors
      refine ⟨?_, ?_, hconveys.symmetric, ?_⟩
      · intro t ht
        obtain ⟨a, ha, -⟩ := (hconveys.twoHop t).1 ht
        exact ⟨a, (Registry.lookup?_eq_some_iff _ _ _).1 ha⟩
      · intro a
        constructor
        · rintro ⟨t, ht, hta⟩
          obtain ⟨b, hb, hrest⟩ := (hconveys.twoHop t).1 ht
          rw [(Registry.lookup?_eq_some_iff _ _ _).1 hb, Option.some.injEq] at hta
          exact hta ▸ hrest
        · rintro ⟨hreports, hrest⟩
          obtain ⟨t, ht⟩ := hconveys.reported a hreports
          exact ⟨t, (hconveys.twoHop t).2 ⟨a, ht, hreports, hrest⟩,
            (Registry.lookup?_eq_some_iff _ _ _).1 ht⟩
      · rw [hselectors hlive, ← hconveys.symmetric]
        rfl

end Meshcast
