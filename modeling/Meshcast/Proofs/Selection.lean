import Meshcast.Proofs.Surveys

/-!
# Meshcast — how relays come to know

A node marks its relays, its greetings pass the marks on, and whoever hears that it is marked counts
the sender among its selectors. Greetings that come in meanwhile leave the marks as they are.

* **`Node.Marks`** — the chosen ones of those next to a node, and no others, are marked as relays.
* **`Marks.heard`** — a greeting that confirms the link leaves the marks.
* **`Resident.hasSelector_upkeep`** — the selectors are those who said that they chose the node.
-/

namespace Meshcast

variable {n : ℕ} {addr : Fin n → Address} {G : SimpleGraph (Fin n)} {now : ℕ} {x y i : Fin n}
  {node : Node} {memory : Memory} {chosen : Fin n → Fin n → Prop}

/-! ## Marks -/

/-- Of those next to `x`, the chosen ones are marked as relays. -/
def Node.Marks (addr : Fin n → Address) (G : SimpleGraph (Fin n)) (chosen : Fin n → Fin n → Prop)
    (x : Fin n) (node : Node) : Prop :=
  ∀ y, G.Adj x y → ∃ (id : NodeId) (slot : Slot Neighbor),
    node.registry.lookup? (addr y) = some id ∧ node.neighbors.table.slots[id]? = some slot
      ∧ slot.value.isSymmetric = true ∧ (slot.value.status = .relay ↔ chosen x y)

theorem Node.Surveys.marked (h : node.Surveys addr G now x)
    (hchosen : ∀ y, node.HasRelay (addr y) ↔ chosen x y) : node.Marks addr G chosen x := by
  intro y hadj
  obtain ⟨id, hid⟩ := h.near y hadj
  obtain ⟨entry, hget, hsymmetric⟩ :=
    Neighborhood.mem_symmetric.1 ((h.mem_symmetric id).2 ⟨y, hadj, hid⟩)
  obtain ⟨slot, hslot, -, hvalue⟩ := ExpiringTable.get?_eq_some_iff.1 hget
  refine ⟨id, slot, hid, hslot, hvalue ▸ hsymmetric, ?_⟩
  rw [hvalue, h.marks id entry hget, ← hchosen]
  constructor
  · intro hmem
    exact ⟨id, hid, hmem⟩
  · rintro ⟨id', hid', hmem⟩
    rw [hid, Option.some.injEq] at hid'
    exact hid' ▸ hmem

theorem HelloReport.statusAfter_eq {report : HelloReport} {current : NeighborType}
    (h : (report.statusAfter current).isSymmetric = true) (hcurrent : current.isSymmetric = true) :
    report.statusAfter current = current := by
  have hkind : current ≠ .notNeighbor := by
    rintro rfl
    nomatch hcurrent
  unfold statusAfter at h ⊢
  split at h
  · nomatch h
  · split at h
    · nomatch h
    · split at h
      · rename_i hlost hconfirms
        rw [if_neg hlost, if_pos hconfirms, if_neg hkind]
      · nomatch h

/-- A symmetric neighbor that stays symmetric keeps its mark. -/
theorem InformationBase.status_applyHello {base : InformationBase} {source : Address}
    {hello : Hello} {validity : ValidityTime} {id : NodeId} {entry : Neighbor}
    {slot : Slot Neighbor}
    (hid : base.registry.lookup? source = some id) (hother : id ≠ base.self)
    (hentry : base.neighbors.get? now id = some entry) (hsymmetric : entry.isSymmetric = true)
    (hslot : (base.applyHello now source hello validity).2.neighbors.table.slots[id]? = some slot)
    (hstill : slot.value.isSymmetric = true) : slot.value.status = entry.status := by
  unfold applyHello intern at hslot
  rw [Registry.intern_of_lookup? hid] at hslot
  dsimp only at hslot
  rw [if_neg hother] at hslot
  let listed := base.registry.internAll hello.listings.unzip.2
  let report := HelloReport.ofListings base.self id hello.listings.unzip.1 listed.1
  have hslot : ({ base with registry := listed.2 }.recordNeighbor now id report
      validity.millis).2.neighbors.table.slots[id]? = some slot := hslot
  have hknown : ({ base with registry := listed.2 } : InformationBase).neighbors.get? now id =
      some entry := hentry
  rw [slots_recordNeighbor, hknown, Std.ExtTreeMap.getElem?_insert_self, Option.some.injEq] at hslot
  subst hslot
  exact HelloReport.statusAfter_eq hstill hsymmetric

/-- The greeting of a neighbor that confirms the link leaves the marks. -/
theorem Node.Marks.heard (h : node.Marks addr G chosen x) (hinjective : Function.Injective addr)
    {packet : Packet} {g : Heard} (haddress : node.address = addr x)
    (hself : node.registry.lookup? node.address = some node.self) (hadj : G.Adj x i)
    (hlive : ∀ (id : NodeId) (slot : Slot Neighbor), node.registry.lookup? (addr i) = some id →
      node.neighbors.table.slots[id]? = some slot → slot.isLive now = true)
    (hheard : node.heardFrom? now packet (addr i) = some g) (hconfirms : g.Confirms (addr x)) :
    (node.receivePacket now packet (addr i)).2.Marks addr G chosen x := by
  obtain ⟨hforeign, -, happly⟩ := toInformationBase_receivePacket hheard
  obtain ⟨id, slot, htaken⟩ := helloTaken_receivePacket hself hheard
  have hextends := (grows_receivePacket node now packet (addr i)).base.registry
  generalize (node.receivePacket now packet (addr i)).2 = node' at happly htaken hextends
  have hslots : ∀ other : NodeId, node'.neighbors.table.slots[other]? =
      if id = other then some slot else node.neighbors.table.slots[other]? :=
    htaken.getElem?_slots
  intro z hz
  obtain ⟨known, old, hknown, hold, hsymmetric, hmark⟩ := h z hz
  by_cases hzi : z = i
  · subst hzi
    obtain rfl : id = known := by
      have hid := htaken.lookup?_source
      rw [hextends _ known hknown, Option.some.injEq] at hid
      exact hid.symm
    have hslot := hslots id
    rw [if_pos rfl] at hslot
    have hstill : slot.value.isSymmetric = true := by
      rw [htaken.conveys.symmetric, haddress]
      exact hconfirms
    refine ⟨id, slot, hextends _ id hknown, hslot, hstill, ?_⟩
    have hget : node.neighbors.get? now id = some old.value :=
      ExpiringTable.get?_eq_some_iff.2 ⟨old, hold, hlive id old hknown hold, rfl⟩
    have hother : id ≠ node.self := by
      rintro rfl
      exact hforeign (Registry.lookup?_injective hknown hself)
    rw [happly] at hslot
    have hacquainted : (node.acquainted packet).registry.lookup? (addr z) = some id :=
      node.registry.extends_intern _ _ _ hknown
    rw [InformationBase.status_applyHello hacquainted hother hget hsymmetric hslot hstill]
    exact hmark
  · have hne : id ≠ known := by
      rintro rfl
      exact hzi (hinjective (Registry.lookup?_injective (hextends _ _ hknown)
        htaken.lookup?_source))
    exact ⟨known, old, hextends _ known hknown, (hslots known).trans (if_neg hne ▸ hold),
      hsymmetric, hmark⟩

/-! ## Selectors -/

/-- After maintenance all selectors are symmetric neighbors. -/
theorem Node.mem_symmetric_of_selector {id : NodeId}
    (h : id ∈ (node.upkeep now).selectors.members) :
    id ∈ (node.upkeep now).neighbors.symmetric now := by
  have hmem : id ∈ ((node.sweep now).2.recompute now).2.selectors.members := h
  rw [(Node.recompute_neighbors _ now).1] at hmem
  show id ∈ ((node.sweep now).2.recompute now).2.neighbors.symmetric now
  rw [Node.symmetric_recompute]
  rw [Node.selectors_sweep, mem_prune] at hmem
  exact hmem.2

/-- **Selectors are those who said that they chose the node**, after maintenance. -/
theorem Resident.hasSelector_upkeep {sent moves : ℕ}
    (h : Resident addr now sent moves memory x node) (hinjective : Function.Injective addr)
    (hheard : Attentive addr G now
      (fun y x g => g.Confirms (addr x) ∧ (g.Chooses (addr x) ↔ chosen y x)) x memory)
    (hchosen : chosen y x → G.Adj x y) :
    (node.upkeep now).HasSelector (addr y) ↔ chosen y x := by
  have h' := h.upkeep
  have hmeets := h'.meets (hheard.mono fun _ _ htells => htells.1)
  -- whoever is next to the node is a selector if it said so
  have hselector : ∀ z, G.Adj x z → ∃ id, (node.upkeep now).registry.lookup? (addr z) = some id
      ∧ (id ∈ (node.upkeep now).selectors.members ↔ chosen z x) := by
    intro z hadj
    obtain ⟨g, hg, hlate, hconfirms, hchooses⟩ := hheard.near z hadj
    obtain ⟨id, -, hid, -, -, -, hselectors⟩ :=
      h'.recalls.exists_slot hg (by rwa [h'.deadline_eq hg])
    rw [h'.address_eq, hchooses] at hselectors
    exact ⟨id, hid, hselectors.trans (and_iff_right hconfirms)⟩
  constructor
  · rintro ⟨id, hid, hmem⟩
    obtain ⟨z, hadj, hz⟩ := hmeets.mem_symmetric.1 (Node.mem_symmetric_of_selector hmem)
    obtain rfl := hinjective (Registry.lookup?_injective hz hid)
    obtain ⟨id', hid', hiff⟩ := hselector z hadj
    rw [hid, Option.some.injEq] at hid'
    subst hid'
    exact hiff.1 hmem
  · intro hchoice
    obtain ⟨id, hid, hiff⟩ := hselector y (hchosen hchoice)
    exact ⟨id, hid, hiff.2 hchoice⟩

end Meshcast
